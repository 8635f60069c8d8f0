import WebProxyPanel.Lib.JsonText
import WebProxyPanel.CounterNames
/-!
# JSON between processes

`wppctl` reads the JSON of `nft -j` (ctl.py:179, 286) and that of its own child, which has dropped
to the owner of the database (:243, :255). With `json.loads` and `json.dumps` on texts:

| here | there |
| --- | --- |
| `loads` | `json.loads`, and `int` of a text |
| `dumpPayload` | `json.dumps(_query_db(path)).encode("ascii")` |
| `SetListing` | what `nft -j list set inet wpp blocked` prints, in libnftables' schema |

The parent reads the three lists of the child as they were (`readPayload_dump`), and the elements of
the set (`parseSetElements_listing`). What a float is worth is a parameter; nothing that is written
here has one.
-/

namespace WebProxyPanel
namespace Ctl
open JsonText

/-! ## `json.loads` -/

section Loads
variable (floats : List Char → Bool × Except Exn Int)

mutual
def Json.of : Datum → Json
  | .null => .null
  | .bool b => .bool b
  | .int i => .int i
  | .float text => .float (floats text).1 (floats text).2
  | .str s => .str s
  | .arr xs => .arr (Json.ofItems xs)
  | .obj kvs => .obj (Json.ofMembers kvs)
def Json.ofItems : List Datum → List Json
  | [] => []
  | x :: xs => Json.of x :: Json.ofItems xs
def Json.ofMembers : List (String × Datum) → List (String × Json)
  | [] => []
  | (k, x) :: kvs => (k, Json.of x) :: Json.ofMembers kvs
end

/-- Python, as far as `wppctl` reads texts with it. -/
def loads (intOf : String → Except Exn Int) : Python where
  loads s :=
    match JsonText.read s.toList with
    | some v => .ok (Json.of floats v)
    | none => .error .value
  intOf := intOf

variable {floats}

theorem loads_of_read {intOf : String → Except Exn Int} {text : String} {v : Datum}
    (h : JsonText.read text.toList = some v) :
    (loads floats intOf).loads text = .ok (Json.of floats v) := by
  simp only [loads, h]

theorem ofItems_eq_map (xs : List Datum) : Json.ofItems floats xs = xs.map (Json.of floats) := by
  induction xs with
  | nil => rfl
  | cons x xs ih => rw [Json.ofItems, ih, List.map_cons]

theorem field_ofMembers (kvs : List (String × Datum)) (key : String) :
    field (Json.ofMembers floats kvs) key = (kvs.lookup key).map (Json.of floats) := by
  induction kvs with
  | nil => rfl
  | cons kv kvs ih =>
    obtain ⟨k, x⟩ := kv
    rw [Json.ofMembers, field, List.find?_cons, List.lookup_cons]
    by_cases hk : k = key
    · subst hk
      simp
    · have hne : (key == k) = false := beq_eq_false_iff_ne.2 (Ne.symm hk)
      simp only [hne, hk, decide_false]
      exact ih

theorem toInt_ofItems {py : Python} (xs : List Int) :
    (Json.ofItems floats (xs.map .int)).mapM (Json.toInt py) = .ok xs := by
  rw [mapM_eq_ok, ofItems_eq_map, List.map_map, List.forall₂_map_left_iff, List.forall₂_same]
  exact fun i _ => rfl

end Loads

/-! ## The lists of the database -/

def payloadValue (x : List Int × List Int × List Int) : Datum :=
  .arr [.arr (x.1.map .int), .arr (x.2.1.map .int), .arr (x.2.2.map .int)]

/-- `json.dumps` writes on one line, in ASCII. -/
def dumps (v : Datum) : List Char := write ⟨true, none⟩ 0 v

/-- What the child sends. -/
def dumpPayload (x : List Int × List Int × List Int) : List UInt8 :=
  (dumps (payloadValue x)).map fun c => c.toNat.toUInt8

theorem exactItems_ints (xs : List Int) : ExactItems (xs.map .int) := by
  induction xs with
  | nil => trivial
  | cons x xs ih => exact ⟨trivial, ih⟩

theorem exact_payloadValue (x : List Int × List Int × List Int) : (payloadValue x).Exact :=
  ⟨exactItems_ints _, exactItems_ints _, exactItems_ints _, trivial⟩

/-- ASCII comes back. -/
theorem decodeAscii_ascii {cs : List Char} (h : Ascii cs) :
    decodeAscii (cs.map fun c => c.toNat.toUInt8) = .ok (String.ofList cs) := by
  have hbyte : ∀ c ∈ cs, (c.toNat.toUInt8).toNat = c.toNat := by
    intro c hc
    have := h c hc
    simp only [Nat.toUInt8, UInt8.toNat_ofNat']
    omega
  have hall : (cs.map fun c => c.toNat.toUInt8).all (· < 128) = true := by
    rw [List.all_eq_true]
    rintro b hb
    obtain ⟨c, hc, rfl⟩ := List.mem_map.1 hb
    rw [decide_eq_true_eq, UInt8.lt_iff_toNat_lt, hbyte c hc]
    exact h c hc
  rw [decodeAscii, if_pos hall, List.map_map]
  congr 2
  refine (List.map_congr_left fun c hc => ?_).trans (List.map_id cs)
  exact (congrArg Char.ofNat (hbyte c hc)).trans (Char.ofNat_toNat c)

theorem loads_dumps {floats : List Char → Bool × Except Exn Int} {intOf : String → Except Exn Int}
    {v : Datum} (h : v.Exact) :
    (loads floats intOf).loads (String.ofList (dumps v)) = .ok (Json.of floats v) := by
  have hread := @read_write ⟨true, none⟩ v h [] fun _ hc => absurd hc List.not_mem_nil
  rw [List.append_nil] at hread
  refine loads_of_read ?_
  rw [String.toList_ofList]
  exact hread

/-- The parent has the lists that the child has read. -/
theorem readPayload_dump {floats : List Char → Bool × Except Exn Int}
    {intOf : String → Except Exn Int} (x : List Int × List Int × List Int) :
    readPayload (loads floats intOf) (dumpPayload x) = .ok x := by
  have htext : decodeAscii (dumpPayload x) = .ok (String.ofList (dumps (payloadValue x))) :=
    decodeAscii_ascii (ascii_write none _ 0 (exact_payloadValue x))
  have hloads := @loads_dumps floats intOf _ (exact_payloadValue x)
  have hints : ∀ xs : List Int, (Json.arr (Json.ofItems floats (xs.map .int))).toInts
      (loads floats intOf) = .ok xs :=
    fun xs => toInt_ofItems xs
  have hthree : unpack3 (Json.of floats (payloadValue x)) =
      .ok (.arr (Json.ofItems floats (x.1.map .int)),
      .arr (Json.ofItems floats (x.2.1.map .int)), .arr (Json.ofItems floats (x.2.2.map .int))) :=
        rfl
  simp only [readPayload, htext, hloads, hthree, hints, bind, Except.bind, pure, Except.pure]

/-! ## The set -/

/-- An element of a set of ports. -/
inductive Element where
  | port (p : Int)
  | range (low high : Int)

def Element.value : Element → Datum
  | .port p => .int p
  | .range low high => .obj [("range", .arr [.int low, .int high])]

def Element.ports : Element → List Int
  | .port p => [p]
  | .range low high => interval low high

/-- An object of a listing that is about something else: the version, the table. -/
def NoSet (x : Datum) : Prop := ∃ kvs, x = .obj kvs ∧ kvs.lookup "set" = none

/-- The listing of the set `blocked` with these ports; an empty set may come without elements. -/
inductive SetListing : Datum → Finset Int → Prop
  | mk {top fields : List (String × Datum)} {before after : List Datum} {es : List Element} :
    top.lookup "nftables" = some (.arr (before ++ .obj [("set", .obj fields)] :: after)) →
      (∀ x ∈ before ++ after, NoSet x) →
    fields.lookup "name" = some (.str "blocked") →
    (fields.lookup "elem" = some (.arr (es.map Element.value)) ∨ fields.lookup "elem" =
      none ∧ es = []) →
    SetListing (.obj top) (es.flatMap Element.ports).toFinset

section Listing
variable {floats : List Char → Bool × Except Exn Int} {py : Python}

theorem parseItem_noSet {x : Datum} (h : NoSet x) : parseItem py (Json.of floats x) = .ok [] := by
  obtain ⟨kvs, rfl, hset⟩ := h
  simp only [parseItem, Json.of, get_obj, field_ofMembers, hset, Option.map_none, Option.getD_none]
  rfl

theorem parseElement_value (e : Element) :
    parseElement py (Json.of floats e.value) = .ok e.ports := by
  cases e with
  | port p => rfl
  | range low high => rfl

theorem elems_parse (es : List Element) :
    ((es.map Element.value).map (Json.of floats)).mapM (parseElement py) =
      .ok (es.map Element.ports) := by
  rw [mapM_eq_ok, List.map_map, List.forall₂_map_left_iff, List.forall₂_map_right_iff,
    List.forall₂_same]
  exact fun e _ => parseElement_value e

theorem parseItem_set {fields : List (String × Datum)} {es : List Element}
    (hname : fields.lookup "name" = some (.str "blocked"))
    (helem : fields.lookup "elem" = some (.arr (es.map Element.value)) ∨ fields.lookup "elem" =
      none ∧ es = []) :
    parseItem py (Json.of floats (.obj [("set", .obj fields)])) =
      .ok (es.flatMap Element.ports) := by
  have htruth : (Json.obj (Json.ofMembers floats fields)).truth = true := by
    cases fields with
    | nil => cases hname
    | cons kv fields => rfl
  have hblocked : isBlockedSet (.str "blocked") = true := by decide
  have hset : field [("set", Json.obj (Json.ofMembers floats fields))] "set" =
      some (.obj (Json.ofMembers floats fields)) := rfl
  simp only [parseItem, Json.of, Json.ofMembers, get_obj, hset, Option.getD_some, field_ofMembers,
    hname, Option.map_some, bind, Except.bind, htruth, hblocked, not_true_eq_false, if_false]
  rcases helem with helem | ⟨helem, rfl⟩
  · rw [helem, Option.map_some, Option.getD_some, Json.of, ofItems_eq_map]
    cases es with
    | nil => rfl
    | cons e es =>
      rw [if_neg (by simp [Json.truth])]
      simp only [Json.items, elems_parse, pure, Except.pure]
      rfl
  · rw [helem, Option.map_none, Option.getD_none]
    rfl

/-- What is read of a listing is the set. -/
theorem parseSetElements_listing {v : Datum} {g : Finset Int} (h : SetListing v g) :
    ∃ xs, parseSetElements py (Json.of floats v) = .ok xs ∧ xs.toFinset = g := by
  obtain ⟨htop, hother, hname, helem⟩ := h
  rename_i top fields before after es
  have hside : ∀ {xs : List Datum}, (∀ x ∈ xs, NoSet x) →
      (xs.map (Json.of floats)).mapM (parseItem py) = .ok (xs.map fun _ => []) := by
    intro xs hxs
    rw [mapM_eq_ok, List.forall₂_map_left_iff, List.forall₂_map_right_iff, List.forall₂_same]
    exact fun x hx => parseItem_noSet (hxs x hx)
  have hbefore := hside fun x hx => hother x (List.mem_append_left _ hx)
  have hafter := hside fun x hx => hother x (List.mem_append_right _ hx)
  refine ⟨es.flatMap Element.ports, ?_, rfl⟩
  simp only [parseSetElements, Json.of, get_obj, field_ofMembers, htop, Option.map_some,
    Option.getD_some, Json.items, ofItems_eq_map,
    List.map_append, List.map_cons, List.mapM_append, List.mapM_cons, hbefore, hafter, bind,
    Except.bind, pure, Except.pure]
  have hone := @parseItem_set floats py fields es hname helem
  simp only [Json.of] at hone
  rw [hone]
  simp

end Listing

end Ctl
end WebProxyPanel
