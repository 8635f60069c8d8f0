import WebProxyPanel.CtlRefines
import WebProxyPanel.Patterns
/-!
# Traffic counters, from nft to the panel

`nft` prints its counters as JSON; `wppctl counters` (ctl.py:282-286) gathers them by port and
prints JSON again; `System.counters` (system.py:87-89) reads that. Of a table that `build_ruleset`
has made, each port arrives once, with the bytes of its two counters.
-/

namespace WebProxyPanel
namespace Ctl
open Effects JsonText

/-! ## `System.counters` -/

/-- `v[i]`; `none` where Python raises. -/
def Json.index (i : Nat) : Json → Option Json
  | .arr xs => xs[i]?
  | .str s => s.toList[i]?.map fun c => .str (String.singleton c)
  | _ => none

/-- `int(port): (int(v[0]), int(v[1]))` -/
def readCounter (py : Python) (kv : String × Json) : Option (Int × Int × Int) := do
  let port ← (py.intOf kv.1).toOption
  let up ← ((← kv.2.index 0).toInt py).toOption
  let down ← ((← kv.2.index 1).toInt py).toOption
  pure (port, up, down)

/-- `System.counters` of what `wppctl` has printed; `none` where it raises. -/
def readCounters (py : Python) (stdout : String) : Option (List (Int × Int × Int)) := do
  match ← (py.loads stdout).toOption with
  | .obj kvs => (kvs.mapM (readCounter py)).map JsonText.asDict
  | _ => none

section Read
variable {floats : List Char → Bool × Except Exn Int} {digit : Char → Option ℕ}

theorem loads_line {intOf : String → Except Exn Int} {v : Datum} (h : v.Exact) :
    (loads floats intOf).loads (String.ofList (dumps v) ++ "\n") = .ok (Json.of floats v) := by
  have hread := @read_write ⟨true, none⟩ v h ['\n'] fun c hc => by rw [List.mem_singleton.1 hc]; rfl
  refine loads_of_read ?_
  rw [String.toList_append, String.toList_ofList]
  exact hread

theorem int_toString (hdigit : ∀ c, c.isDigit → digit c = some (c.toNat - 48)) {p : Int} (h : 0 ≤ p)
    (hlast : p ≤ slotPortLast) : int digit (toString p) = .ok p := by
  obtain ⟨n, rfl⟩ := Int.eq_ofNat_of_zero_le h
  have hchomp : chomp (toString (n : Int)).toList = Nat.toDigits 10 n :=
    chomp_eq_toDigits.2 (.inl rfl)
  have hcanon := Decimal.canonical_toDigits n
  have hlen : (Nat.toDigits 10 n).length ≤ 5 := by
    refine (Nat.length_toDigits_le_iff (by decide) (by decide)).2 ?_
    unfold slotPortLast at hlast
    omega
  rw [int_chomp hdigit (by rw [hchomp]; exact hcanon.1) (by rw [hchomp]; exact hcanon.2.1)
    (by rw [hchomp]; exact hlen.trans_lt (by decide)), hchomp, decimal_toDigits]

def pairsValue (pairs : List (Int × Int × Int)) : Datum :=
  .obj (pairs.map fun kv => (toString kv.1, .arr [.int kv.2.1, .int kv.2.2]))

theorem exact_pairsValue {pairs : List (Int × Int × Int)} (h : (pairs.map (·.1)).Nodup) :
    (pairsValue pairs).Exact := by
  refine ⟨?_, ?_⟩
  · have hkeys : (pairs.map fun kv => (toString kv.1, Datum.arr [.int kv.2.1, .int kv.2.2])).map
        (·.1) = (pairs.map (·.1)).map toString := by
      rw [List.map_map, List.map_map]
      rfl
    rw [hkeys]
    exact h.map fun _ _ he => toString_injective he
  · clear h
    induction pairs with
    | nil => trivial
    | cons kv pairs ih => exact ⟨⟨trivial, trivial, trivial⟩, ih⟩

/-- What `wppctl` prints comes back. -/
theorem readCounters_text (hdigit : ∀ c, c.isDigit → digit c = some (c.toNat - 48))
    {pairs : List (Int × Int × Int)} (hnodup : (pairs.map (·.1)).Nodup)
    (hports : SlotPorts (pairs.map (·.1))) :
    readCounters (loads floats (int digit)) (Output.counters pairs).text = some pairs := by
  have hline : (loads floats (int digit)).loads (Output.counters pairs).text =
      .ok (Json.of floats (pairsValue pairs)) :=
    loads_line (exact_pairsValue hnodup)
  have hentries : (Json.ofMembers floats
      (pairs.map fun kv => (toString kv.1, Datum.arr [.int kv.2.1, .int kv.2.2]))).mapM
      (readCounter (loads floats (int digit))) = some pairs := by
    clear hnodup hline
    induction pairs with
    | nil => rfl
    | cons kv pairs ih =>
      obtain ⟨hlow, hlast⟩ := hports kv.1 List.mem_cons_self
      have hport : (loads floats (int digit)).intOf (toString kv.1) = .ok kv.1 :=
        int_toString hdigit (le_trans (by decide) hlow) hlast
      have hone : readCounter (loads floats (int digit))
          (toString kv.1, Json.of floats (.arr [.int kv.2.1, .int kv.2.2])) = some kv := by
        simp only [readCounter, hport]
        rfl
      rw [List.map_cons, Json.ofMembers, List.mapM_cons, hone, ih fun x hx =>
        hports x (List.mem_cons_of_mem _ hx)]
      rfl
  rw [readCounters, hline]
  simp only [Except.toOption, pairsValue, Json.of, Option.bind_eq_bind, Option.bind_some, hentries,
    Option.map_some, asDict_of_nodup hnodup]

end Read

/-! ## From the table to the panel -/

/-- `nft -j list counters` prints the counters of a table for these ports, each with its bytes, in
any order and with other objects in between. -/
def ListsCounters (floats : List Char → Bool × Except Exn Int) (ports : List Int)
    (bytes : String → Int) (stdout : String) : Prop :=
  ∃ v items names, JsonText.read stdout.toList = some v ∧
    (Json.of floats v).get "nftables" (.arr []) = .ok (.arr items) ∧
    Lists bytes items names ∧ ∀ name, name ∈ names ↔ ∃ p ∈ ports, name = counterText p "up" ∨
    name = counterText p "down"

section Run
variable {tools : Tools} {R : Machine → Machine → Prop} {s s' : Station}

/-- Nothing was written in between. -/
def SameStreams (s s' : Station) : Prop := s'.2 = s.2

/-- An action that writes nothing. -/
def Silent {β : Type} (a : Act β) : Prop :=
  match a with
  | .stderr _ | .print _ => False
  | _ => True

theorem streams_of_others (h : Relation.ReflTransGen (beside R) s s') : SameStreams s s' := by
  induction h with
  | refl => rfl
  | tail _ hs ih => exact Eq.trans hs.2 ih

theorem does_silent {β : Type} {a : Act β} {r : Except Exn β} (ha : Silent a)
    (h : does tools R s a r s') : SameStreams s s' := by
  cases a with
  | stderr text => exact ha.elim
  | print out => exact ha.elim
  | exec path args stdin => exact h.1
  | child => exact streams_of_others h.1
  | dbExists => exact congrArg Prod.snd h.2
  | select q => exact congrArg Prod.snd h.1
  | which t | lstat | geteuid => exact congrArg Prod.snd (show s' = s from h)

theorem silent_run {t : Tool} {args : List Word} {stdin : Option Ruleset} {check : Bool} :
    (run t args stdin check).Only Silent := by
  refine Prog.Only.bind (Prog.Only.bind (Prog.Only.call trivial) fun path => ?_) fun path =>
    Prog.Only.bind (Prog.Only.call trivial) fun proc => ?_
  · cases path with
    | none => trivial
    | some path =>
      show (if path.path = "" then _ else _ : P (ToolPath t)).Only Silent
      split <;> trivial
  · split
    · unfold checked
      split <;> trivial
    · trivial

theorem streams_of_silent {α : Type} {p : P α} {out : Option (Except Exn α)} (hp : p.Only Silent)
    (h : Among (does tools R) (beside R) p s out s') : SameStreams s s' :=
  h.keeps SameStreams (fun _ => rfl) (fun _ _ _ h₁ h₂ => Eq.trans h₂ h₁) (fun _ _ hs => hs.2)
    (fun _ _ _ _ ha hd => does_silent ha hd) hp

theorem silent_ofExcept {α : Type} (x : Except Exn α) : (ofExcept x).Only Silent := by
  cases x <;> trivial

variable {floats : List Char → Bool × Except Exn Int} {digit : Char → Option ℕ}

/-- Whatever moves beside `wppctl`: if it succeeds, `System.counters` has each port of the table
once, in order, with the bytes that nft has counted in both directions. -/
theorem counters_read (hdigit : ∀ c, c.isDigit → digit c = some (c.toNat - 48)) {ports : List Int}
    (hports : SlotPorts ports) (bytes : String → Int)
    (hlist : ∀ f proc f', tools.nft ["-j", "list", "counters", "table", "inet", "wpp"] none f proc
      f' → proc.returncode = 0 → ListsCounters floats ports bytes proc.stdout)
    {m m' : Machine} {io : Streams}
    (h : Among (does tools R) (beside R) (main (loads floats (int digit)) ["counters"])
      (m, ⟨"", ""⟩) (some (.ok ())) (m', io)) :
    ∃ pairs, readCounters (loads floats (int digit)) io.stdout = some pairs ∧
      (pairs.map (·.1)).Pairwise (· < ·) ∧
      ∀ p v, (p, v) ∈ pairs ↔ p ∈ ports ∧
        v = (bytes (counterText p "up"), bytes (counterText p "down")) := by
  have hmain : main (loads floats (int digit)) ["counters"] =
      (run .nft [.lit "-j", .lit "list", .lit "counters", .lit "table", .lit "inet", .lit "wpp"]
        none true).bind fun proc =>
        (ofExcept (((loads floats (int digit)).loads proc.stdout).bind
          (parseCounters (loads floats (int digit))))).bind fun pairs =>
          .call (.print (.counters (Table.orderBy (·.1) pairs))) := rfl
  rw [hmain] at h
  obtain ⟨proc, s₁, h₁, h⟩ := among_bind_ok h
  obtain ⟨pairs, s₂, h₂, h⟩ := among_bind_ok h
  obtain ⟨s₃, s₄, h₃, ⟨-, rfl⟩, h₄⟩ := among_call_ok h
  have hio : s₃.2 = ⟨"", ""⟩ := by
    have h₁' := streams_of_silent silent_run h₁
    have h₂' := streams_of_silent (silent_ofExcept _) h₂
    have h₃' := streams_of_others h₃
    exact h₃'.trans (h₂'.trans h₁')
  obtain ⟨hparse, -⟩ := among_ofExcept_ok h₂
  rcases among_run h₁ with ⟨-, hno⟩ | ⟨s₅, m₁, proc', -, ⟨f, hnft, -⟩, -, hout⟩
  · exact absurd rfl (hno proc)
  obtain ⟨rfl, hcode⟩ := hout proc rfl
  obtain ⟨v, items, names, hread, hdata, hitems, hnames⟩ := hlist _ _ _ hnft (hcode rfl)
  obtain ⟨pairs', hpairs, hnodup, hmem⟩ :=
    parseCounters_lists (loads floats (int digit)) hports hdata hitems hnames
  have hparsed : parseCounters (loads floats (int digit)) (Json.of floats v) = .ok pairs := by
    rw [loads_of_read hread] at hparse
    exact hparse
  obtain rfl := Except.ok.inj (hpairs.symm.trans hparsed)
  have hperm := Table.orderBy_perm (·.1) pairs'
  have hnodup' : ((Table.orderBy (·.1) pairs').map (·.1)).Nodup := (hperm.map _).nodup_iff.2 hnodup
  refine ⟨Table.orderBy (·.1) pairs', ?_, ?_, fun p v => ?_⟩
  · have hstdout : io.stdout = (Output.counters (Table.orderBy (·.1) pairs')).text := by
      rw [show io = _ from streams_of_others h₄, hio]
      exact String.empty_append
    rw [hstdout]
    refine readCounters_text hdigit hnodup' fun p hp => ?_
    obtain ⟨kv, hkv, rfl⟩ := List.mem_map.1 hp
    exact hports kv.1 ((hmem kv.1 kv.2).1 (hperm.mem_iff.1 hkv)).1
  · rw [List.pairwise_map]
    have hle := Table.orderBy_pairwise (·.1) pairs'
    have hne := List.pairwise_map.1 hnodup'
    exact (hle.and hne).imp fun h => lt_of_le_of_ne h.1 h.2
  · rw [hperm.mem_iff]
    exact hmem p v

end Run

/-! ### A table with one port -/

def counterObject (name : String) (packets bytes : Int) : Datum :=
  .obj [("counter", .obj [("family", .str "inet"), ("name", .str name), ("table", .str "wpp"),
    ("handle", .int 2), ("packets", .int packets), ("bytes", .int bytes)])]

def counterListing : Datum :=
  .obj [("nftables", .arr
    [.obj [("metainfo", .obj [("version", .str "1.0.9"), ("json_schema_version", .int 1)])],
    counterObject "c20000_down" 2 7, counterObject "c20000_up" 1 5])]

/-- `nft` with this table. -/
def counting : Tools where
  nft args _ f proc f' :=
    args = ["-j", "list", "counters", "table", "inet", "wpp"] ∧
      proc = success (String.ofList (dumps counterListing)) ∧ f' = f
  systemctl := obliging.systemctl

def countingPython : Python := loads (fun _ => (true, .error .value)) (int Literal.decimal)

theorem exact_counterListing : counterListing.Exact := by
  simp [counterListing, counterObject, Datum.Exact, ExactItems, ExactMembers]

theorem counting_lists (f : Option (Finset Int)) (proc : Proc) (f' : Option (Finset Int))
    (h : counting.nft ["-j", "list", "counters", "table", "inet", "wpp"] none f proc f') :
    ListsCounters (fun _ => (true, .error .value)) [20000] sampleBytes proc.stdout := by
  have hread := @read_write ⟨true, none⟩ _ exact_counterListing [] fun _ hc =>
      absurd hc List.not_mem_nil
  rw [List.append_nil] at hread
  obtain ⟨-, rfl, -⟩ := h
  refine ⟨counterListing, _, ["c20000_down", "c20000_up"], ?_, rfl,
    .foreign (.other rfl) (.counter rfl rfl rfl (.counter rfl rfl rfl .nil)), fun name => ?_⟩
  · rw [success, String.toList_ofList]
    exact hread
  · have hnames : counterText 20000 "up" = "c20000_up" ∧
        counterText 20000 "down" = "c20000_down" := by decide
    simp only [List.mem_cons, List.not_mem_nil, or_false, exists_eq_left, hnames]
    exact or_comm

theorem slotPorts_one : SlotPorts [20000] := by
  unfold SlotPorts
  decide

theorem success_stdout (text : String) : (success text).stdout = text := rfl

theorem runs_cmdCounters_ok {tools : Tools} {R : Machine → Machine → Prop} {m : Machine}
    {io : Streams} {py : Python} {text : String} {v : Json} {pairs : List (Int × Int × Int)}
    (hran : tools.Ran .nft
      (([.lit "-j", .lit "list", .lit "counters", .lit "table", .lit "inet", .lit "wpp"] :
      List Word).map Word.text) ((none : Option Ruleset).map Ruleset.text) m (success text) m)
    (hloads : py.loads text = .ok v) (hparse : parseCounters py v = .ok pairs) :
    Among (does tools R) (beside R) (cmdCounters py []) (m, io) (some (.ok ()))
      (m, { io with stdout := io.stdout ++ (Output.counters (Table.orderBy (·.1) pairs)).text }) := by
  refine (runs_run_ok hran rfl).bind ?_
  have hread : (py.loads (success text).stdout).bind (parseCounters py) = .ok pairs := by
    rw [success, hloads]
    exact hparse
  rw [hread]
  exact .call .refl ⟨rfl, rfl⟩ .refl

theorem runs_counters :
    ∃ stdout, Among (does counting nobody) (beside nobody) (main countingPython ["counters"])
      (⟨oneFree, some ∅, ∅⟩, ⟨"", ""⟩)
      (some (.ok ())) (⟨oneFree, some ∅, ∅⟩, ⟨stdout, ""⟩) := by
  have hran : counting.Ran .nft
      (([.lit "-j", .lit "list", .lit "counters", .lit "table", .lit "inet", .lit "wpp"] :
      List Word).map Word.text)
      ((none : Option Ruleset).map Ruleset.text) ⟨oneFree, some ∅, ∅⟩
      (success (String.ofList (dumps counterListing))) ⟨oneFree, some ∅, ∅⟩ :=
    ⟨_, ⟨rfl, rfl, rfl⟩, rfl⟩
  obtain ⟨v, items, names, hread, hdata, hitems, hnames⟩ :=
    counting_lists none _ none ⟨rfl, rfl, rfl⟩
  obtain ⟨pairs, hpairs, -, -⟩ :=
    parseCounters_lists countingPython slotPorts_one hdata hitems hnames
  have hloads : countingPython.loads (String.ofList (dumps counterListing)) =
      .ok (Json.of (fun _ => (true, .error .value)) v) := by
    rw [success_stdout] at hread
    rw [countingPython, loads_of_read hread]
  exact ⟨_, runs_cmdCounters_ok hran hloads hpairs⟩

theorem counters_read_onePort :
    ∃ stdout, Among (does counting nobody) (beside nobody) (main countingPython ["counters"])
      (⟨oneFree, some ∅, ∅⟩, ⟨"", ""⟩) (some (.ok ())) (⟨oneFree, some ∅, ∅⟩, ⟨stdout, ""⟩) ∧
        ∃ pairs, readCounters countingPython stdout = some pairs ∧
          (pairs.map (·.1)).Pairwise (· < ·) ∧
          ∀ p v, (p, v) ∈ pairs ↔ p ∈ [20000] ∧ v =
            (sampleBytes (counterText p "up"), sampleBytes (counterText p "down")) := by
  obtain ⟨stdout, hrun⟩ := runs_counters
  exact ⟨stdout, hrun, @counters_read counting nobody (fun _ => (true, .error .value))
    Literal.decimal (fun c hc => Literal.decimal_of_isDigit hc) [20000] slotPorts_one
    sampleBytes (fun f proc f' h _ => counting_lists f proc f' h) _ _ ⟨stdout, ""⟩ hrun⟩

end Ctl
end WebProxyPanel
