import Mathlib.Data.List.Dedup
import WebProxyPanel.Arguments
/-!
# The nft script, read back

`readScript` reads what a script declares, line by line and word by word, with no knowledge of how
it was written. What `build_ruleset` (ctl.py:102-131) writes comes back as the counters, the set and
the two maps of its ports; the names of the counters come back through `parse_counters`
(ctl.py:134-146).
-/

namespace WebProxyPanel
namespace Ctl

/-! ## Words -/

/-- The characters that stand for themselves. -/
def isSymbol (c : Char) : Bool := ['{', '}', ',', ';', ':', '='].contains c

def flush (word : List Char) : List String := if word = [] then [] else [String.ofList word]

/-- The words of a line: each symbol, and the runs of characters between spaces and symbols. -/
def lexFrom (word : List Char) : List Char → List String
  | [] => flush word
  | c :: cs =>
    if c = ' ' then flush word ++ lexFrom [] cs
    else if isSymbol c then flush word ++ String.singleton c :: lexFrom [] cs
    else lexFrom (word ++ [c]) cs

def lex (line : List Char) : List String := lexFrom [] line

/-- A character of names and numbers. -/
def isWordChar (c : Char) : Bool := c.isAlphanum || c = '_' || c = '\"'

/-- A name or a number. -/
def Plain (s : String) : Prop := s ≠ "" ∧ ∀ c ∈ s.toList, isWordChar c

theorem lexFrom_space (word a b : List Char) :
    lexFrom word (a ++ ' ' :: b) = lexFrom word a ++ lexFrom [] b := by
  induction a generalizing word with
  | nil => rfl
  | cons c cs ih =>
    simp only [List.cons_append, lexFrom, ih]
    by_cases hspace : c = ' '
    · simp only [if_pos hspace, List.append_assoc]
    · by_cases hsym : isSymbol c
      · simp only [if_neg hspace, if_pos hsym, List.append_assoc, List.cons_append]
      · simp only [if_neg hspace, if_neg hsym]

theorem lexFrom_symbol (word a b : List Char) {c : Char} (hc : isSymbol c) (hs : c ≠ ' ') :
    lexFrom word (a ++ c :: b) = lexFrom word a ++ String.singleton c :: lexFrom [] b := by
  induction a generalizing word with
  | nil => simp only [List.nil_append, lexFrom, hc, if_neg hs, if_true]
  | cons d ds ih =>
    simp only [List.cons_append, lexFrom, ih]
    by_cases hspace : d = ' '
    · simp only [if_pos hspace, List.append_assoc]
    · by_cases hsym : isSymbol d
      · simp only [if_neg hspace, if_pos hsym, List.append_assoc, List.cons_append]
      · simp only [if_neg hspace, if_neg hsym]

theorem ne_of_isWordChar {c d : Char} (hc : isWordChar c) (hd : isWordChar d = false) : c ≠ d := by
  rintro rfl
  rw [hc] at hd
  exact absurd hd (by decide)

theorem isSymbol_of_isWordChar {c : Char} (hc : isWordChar c) : isSymbol c = false := by
  unfold isSymbol
  simp only [List.contains_eq_mem, decide_eq_false_iff_not, List.mem_cons, List.not_mem_nil,
    or_false, not_or]
  exact ⟨ne_of_isWordChar hc rfl, ne_of_isWordChar hc rfl, ne_of_isWordChar hc rfl,
    ne_of_isWordChar hc rfl, ne_of_isWordChar hc rfl, ne_of_isWordChar hc rfl⟩

theorem lexFrom_plain {word cs : List Char} (h : ∀ c ∈ cs, isWordChar c) :
    lexFrom word cs = flush (word ++ cs) := by
  induction cs generalizing word with
  | nil => rw [List.append_nil]; rfl
  | cons c cs ih =>
    have hc := h c List.mem_cons_self
    rw [lexFrom, if_neg (ne_of_isWordChar hc (by decide)), isSymbol_of_isWordChar hc,
      if_neg Bool.false_ne_true, ih fun d hd => h d (List.mem_cons_of_mem _ hd), List.append_assoc]
    rfl

theorem lex_plain {s : String} (h : Plain s) : lex s.toList = [s] := by
  have hne : s.toList ≠ [] := fun h0 => h.1 (String.toList_eq_nil_iff.1 h0)
  rw [lex, lexFrom_plain h.2, List.nil_append, flush, if_neg hne, String.ofList_toList]

theorem lex_space (a b : List Char) : lex (a ++ ' ' :: b) = lex a ++ lex b := lexFrom_space [] a b

theorem lex_symbol (a b : List Char) {c : Char} (hc : isSymbol c) (hs : c ≠ ' ') :
    lex (a ++ c :: b) = lex a ++ String.singleton c :: lex b := lexFrom_symbol [] a b hc hs

/-- The words of `_elements`: those of its values, with commas in between. -/
theorem lex_elements (values : List String) :
    lex (elements values).toList = [","].intercalate (values.map fun v => lex v.toList) := by
  unfold elements
  induction values with
  | nil => rfl
  | cons v vs ih =>
    cases vs with
    | nil =>
      simp only [String.intercalate_singleton, List.map_cons, List.map_nil,
        List.intercalate_singleton]
    | cons u us =>
      rw [String.intercalate_cons_cons, String.toList_append, String.toList_append,
        List.append_assoc]
      have hcomma : ", ".toList ++ (", ".intercalate (u :: us)).toList
          = ',' :: ([] ++ ' ' :: (", ".intercalate (u :: us)).toList) := rfl
      rw [hcomma, lex_symbol _ _ (by decide) (by decide), lex_space, ih]
      rfl

/-! ## Declarations -/

inductive Item where
  | counter (name : String)
  | set (name : String) (elements : List Int)
  | map (name : String) (entries : List (Int × String))
deriving DecidableEq, Repr

def readNumber (word : String) : Option Int :=
  if word ≠ "" ∧ word.toList.all Char.isDigit then some (decimal word.toList) else none

/-- What stands between quotes. -/
def unquote (word : String) : Option String :=
  match word.toList with
  | '\"' :: cs => if cs.getLast? = some '\"' then some (String.ofList cs.dropLast) else none
  | _ => none

def readElement : List String → Option Int
  | [number] => readNumber number
  | _ => none

def readEntry : List String → Option (Int × String)
  | [number, ":", name] => do pure (← readNumber number, ← unquote name)
  | _ => none

/-- The rest of a set or a map after its type, up to the brace that closes it. -/
def readBody {α : Type} (read : List String → Option α) : List String → Option (List α)
  | ["\x7d"] => some []
  | "elements" :: "=" :: "\x7b" :: rest =>
    if rest.dropWhile (· ≠ "\x7d") = ["\x7d", "\x7d"] then
      ((rest.takeWhile (· ≠ "\x7d")).splitOn ",").mapM read else none
  | _ => none

/-- What a line declares. -/
def readLine : List String → Option Item
  | ["counter", name, "\x7b", "\x7d"] => some (.counter name)
  | "set" :: name :: "\x7b" :: "type" :: "inet_service" :: ";" :: body =>
    (readBody readElement body).map (.set name)
  | "map" :: name :: "\x7b" :: "type" :: "inet_service" :: ":" :: "counter" :: ";" :: body =>
    (readBody readEntry body).map (.map name)
  | _ => none

/-- The declarations of a script, in its order. -/
def readScript (text : String) : List Item :=
  (text.toList.splitOn '\n').filterMap fun line => readLine (lex line)

theorem mapM_map_eq_some {α β γ : Type} {f : α → β} {read : β → Option γ} {g : α → γ} {xs : List α}
    (h : ∀ x ∈ xs, read (f x) = some (g x)) : (xs.map f).mapM read = some (xs.map g) := by
  induction xs with
  | nil => rfl
  | cons x xs ih =>
    rw [List.map_cons, List.mapM_cons, h x List.mem_cons_self, ih fun y hy =>
      h y (List.mem_cons_of_mem _ hy)]
    rfl

theorem mem_intercalate_comma {w : String} {words : List (List String)}
    (h : w ∈ [","].intercalate words) : w = "," ∨ ∃ ws ∈ words, w ∈ ws := by
  induction words with
  | nil => simp at h
  | cons ws rest ih =>
    cases rest with
    | nil => exact .inr ⟨ws, List.mem_cons_self, by simpa using h⟩
    | cons us rest =>
      rw [List.intercalate_cons_cons, List.append_assoc] at h
      rcases List.mem_append.1 h with h | h
      · exact .inr ⟨ws, List.mem_cons_self, h⟩
      · rcases List.mem_append.1 h with h | h
        · exact .inl (List.mem_singleton.1 h)
        · rcases ih h with h | ⟨vs, hvs, hw⟩
          · exact .inl h
          · exact .inr ⟨vs, List.mem_cons_of_mem _ hvs, hw⟩

/-- Elements come back as the words of each, where none of these is a comma or a brace. -/
theorem readBody_elements {α : Type} {read : List String → Option α} {words : List (List String)}
    (hne : words ≠ []) (hw : ∀ ws ∈ words, "," ∉ ws ∧ "\x7d" ∉ ws) :
    readBody read ("elements" :: "=" :: "\x7b" :: ([","].intercalate words ++ ["\x7d", "\x7d"])) =
      words.mapM read := by
  have hall : ∀ w ∈ [","].intercalate words, (decide (w ≠ "\x7d")) = true := by
    intro w h
    rw [decide_eq_true_eq]
    rintro rfl
    rcases mem_intercalate_comma h with h | ⟨ws, hws, h⟩
    · exact absurd h (by decide)
    · exact (hw ws hws).2 h
  rw [readBody, List.dropWhile_append_of_pos hall, List.takeWhile_append_of_pos hall,
    if_pos (by decide)]
  rw [List.takeWhile_cons_of_neg (by decide), List.append_nil,
    List.splitOn_intercalate "," (fun ws hws => (hw ws hws).1) hne]

/-! ## Lines -/

/-- The name of a counter of a port. -/
def counterText (port : Int) (direction : String) : String :=
  "c" ++ toString port ++ "_" ++ direction

def counterNames (port : Int) : List String := [counterText port "up", counterText port "down"]

def counterLine (name : String) : String := "  counter " ++ name ++ " \x7b \x7d"

def setLine (blocked : List Int) : String :=
  "  set blocked \x7b type inet_service;" ++
    (if blocked = [] then "" else
      " elements = \x7b " ++ elements (blocked.map toString) ++ " \x7d") ++ " \x7d"

def mapEntry (direction : String) (port : Int) : String :=
  toString port ++ " : \"" ++ counterText port direction ++ "\""

def mapLine (ports : List Int) (direction : String) : String :=
  if ports = [] then "  map cnt_" ++ direction ++ " \x7b type inet_service : counter; \x7d"
  else "  map cnt_" ++ direction ++ " \x7b type inet_service : counter; elements = \x7b " ++
    elements (ports.map (mapEntry direction)) ++ " \x7d \x7d"

def headLines : List String := ["table inet wpp", "delete table inet wpp", "table inet wpp \x7b"]

def chainLines : List String :=
  ["  chain out \x7b",
   "    type filter hook output priority -10; policy accept;",
   "    oifname \"lo\" tcp dport @blocked reject with tcp reset",
   "    oifname \"lo\" tcp dport 20000-29999 counter name tcp dport map @cnt_up",
   "  \x7d",
   "  chain in \x7b",
   "    type filter hook input priority -10; policy accept;",
   "    iifname \"lo\" tcp sport 20000-29999 counter name tcp sport map @cnt_down",
   "    iifname != \"lo\" tcp dport \x7b 8080, 8081, 8090, 19000-29999 \x7d drop",
   "  \x7d",
   "\x7d"]

def scriptLines (r : Ruleset) : List String :=
  headLines ++ r.ports.flatMap (fun p => (counterNames p).map counterLine) ++ [setLine r.blocked] ++
    ["up", "down"].map (mapLine r.ports) ++ chainLines

theorem text_eq (r : Ruleset) : r.text = "\n".intercalate (scriptLines r) ++ "\n" := rfl

/-- What the ports and the blocked ones are declared as. -/
def declared (r : Ruleset) : List Item :=
  r.ports.flatMap (fun p => (counterNames p).map .counter) ++ [.set "blocked" r.blocked] ++
    ["up", "down"].map fun direction => .map ("cnt_" ++ direction)
    (r.ports.map fun p => (p, counterText p direction))

theorem isWordChar_of_isDigit {c : Char} (h : c.isDigit) : isWordChar c := by
  simp only [isWordChar, Char.isAlphanum, h, Bool.or_true, Bool.true_or]

theorem toList_toString_natCast (n : ℕ) : (toString (n : ℤ)).toList = Nat.toDigits 10 n := by
  have h : toString (n : ℤ) = toString n := rfl
  rw [h, Nat.toString_eq_ofList_toDigits, String.toList_ofList]

theorem plain_toString (n : ℕ) : Plain (toString (n : ℤ)) := by
  obtain ⟨hdigits, hne, -⟩ := Decimal.canonical_toDigits n
  rw [← toList_toString_natCast] at hdigits hne
  refine ⟨fun h0 => hne (String.toList_eq_nil_iff.2 h0), fun c hc => ?_⟩
  exact isWordChar_of_isDigit (List.all_eq_true.1 hdigits c hc)

theorem Plain.append {a b : String} (ha : Plain a) (hb : Plain b) : Plain (a ++ b) := by
  constructor
  · intro h0
    exact ha.1 (String.append_eq_empty_iff.1 h0).1
  · intro c hc
    rw [String.toList_append] at hc
    exact (List.mem_append.1 hc).elim (ha.2 c) (hb.2 c)

theorem plain_counterText (n : ℕ) {direction : String} (h : Plain direction) :
    Plain (counterText n direction) := by
  have hc : Plain "c" := ⟨by decide, List.all_eq_true.1 (by decide)⟩
  have hu : Plain "_" := ⟨by decide, List.all_eq_true.1 (by decide)⟩
  exact ((hc.append (plain_toString n)).append hu).append h

theorem readNumber_toString (n : ℕ) : readNumber (toString (n : ℤ)) = some (n : ℤ) := by
  have hdigits := (Decimal.canonical_toDigits n).1
  rw [← toList_toString_natCast] at hdigits
  rw [readNumber, if_pos ⟨(plain_toString n).1, hdigits⟩, toList_toString_natCast, decimal_toDigits]

theorem unquote_quoted (s : String) : unquote ("\"" ++ s ++ "\"") = some s := by
  have h : ("\"" ++ s ++ "\"").toList = '\"' :: (s.toList ++ ['\"']) := by
    rw [String.toList_append, String.toList_append]
    rfl
  rw [unquote, h]
  simp only [List.getLast?_concat, if_pos, List.dropLast_concat, String.ofList_toList]

/-! ## Lines, read back -/

theorem readLine_counter {name : String} (h : Plain name) :
    readLine (lex (counterLine name).toList) = some (.counter name) := by
  have hline : (counterLine name).toList = "  counter".toList ++ ' ' ::
      (name.toList ++ ' ' :: "\x7b \x7d".toList) := by
    simp only [counterLine, String.toList_append, List.append_assoc]
    rfl
  rw [hline, lex_space, lex_space, lex_plain h]
  rfl

theorem lex_mapEntry (n : ℕ) {direction : String} (h : Plain direction) :
    lex (mapEntry direction n).toList =
      [toString (n : ℤ), ":", "\"" ++ counterText n direction ++ "\""] := by
  have hquote : Plain "\"" := ⟨by decide, List.all_eq_true.1 (by decide)⟩
  have hline : (mapEntry direction n).toList =
      (toString (n : ℤ)).toList ++ ' ' ::
      ([] ++ ':' :: ([] ++ ' ' :: ("\"" ++ counterText n direction ++ "\"").toList)) := by
    simp only [mapEntry, String.toList_append, List.append_assoc]
    rfl
  rw [hline, lex_space, lex_plain (plain_toString n),
    lex_symbol _ _ (by decide) (by decide), lex_space,
    lex_plain ((hquote.append (plain_counterText n h)).append hquote)]
  rfl

theorem ne_of_plain {s w : String} (h : Plain w) (hs : s.toList.all isWordChar = false) :
    s ≠ w := by
  rintro rfl
  rw [List.all_eq_true.2 h.2] at hs
  exact absurd hs (by decide)

theorem readLine_set {blocked : List ℤ} (hb : ∀ p ∈ blocked, 0 ≤ p) :
    readLine (lex (setLine blocked).toList) = some (.set "blocked" blocked) := by
  by_cases h0 : blocked = []
  · subst h0
    decide
  have hline : (setLine blocked).toList =
      "  set blocked \x7b type inet_service; elements = \x7b".toList ++
      ' ' :: ((elements (blocked.map toString)).toList ++ ' ' :: "\x7d \x7d".toList) := by
    have hhead : "  set blocked \x7b type inet_service;".toList ++ " elements = \x7b ".toList =
        "  set blocked \x7b type inet_service; elements = \x7b".toList ++ [' '] := by decide
    have htail : " \x7d".toList ++ " \x7d".toList = ' ' :: "\x7d \x7d".toList := by decide
    unfold setLine
    rw [if_neg h0]
    simp only [String.toList_append]
    rw [List.append_assoc, List.append_assoc, htail, ← List.append_assoc,
      ← List.append_assoc, hhead]
    simp only [List.append_assoc, List.cons_append, List.nil_append]
  have hwords : ((blocked.map toString).map fun v => lex v.toList) = blocked.map fun p =>
      [toString p] := by
    rw [List.map_map]
    refine List.map_congr_left fun p hp => ?_
    obtain ⟨n, rfl⟩ := Int.eq_ofNat_of_zero_le (hb p hp)
    exact lex_plain (plain_toString n)
  rw [hline, lex_space, lex_space, lex_elements, hwords]
  have hread : readBody readElement ("elements" :: "=" :: "\x7b" ::
      ([","].intercalate (blocked.map fun p => [toString p]) ++ ["\x7d", "\x7d"])) =
      some (blocked.map id) := by
    rw [readBody_elements (by simpa using h0)]
    · refine mapM_map_eq_some fun p hp => ?_
      obtain ⟨n, rfl⟩ := Int.eq_ofNat_of_zero_le (hb p hp)
      exact readNumber_toString n
    · intro ws hws
      obtain ⟨p, hp, rfl⟩ := List.mem_map.1 hws
      obtain ⟨n, rfl⟩ := Int.eq_ofNat_of_zero_le (hb p hp)
      rw [List.mem_singleton, List.mem_singleton]
      exact ⟨ne_of_plain (plain_toString n) rfl, ne_of_plain (plain_toString n) rfl⟩
  rw [List.map_id] at hread
  change (readBody readElement _).map (Item.set "blocked") = _
  exact congrArg (Option.map (Item.set "blocked")) hread

theorem readLine_map {ports : List ℤ} {direction : String} (hd : Plain direction)
    (hp : ∀ p ∈ ports, 0 ≤ p) :
    readLine (lex (mapLine ports direction).toList) =
      some (.map ("cnt_" ++ direction) (ports.map fun p => (p, counterText p direction))) := by
  have hcnt : Plain "cnt_" := ⟨by decide, List.all_eq_true.1 (by decide)⟩
  by_cases h0 : ports = []
  · subst h0
    have hline : (mapLine [] direction).toList = "  map".toList ++ ' ' ::
        (("cnt_" ++ direction).toList ++
        ' ' :: "\x7b type inet_service : counter; \x7d".toList) := by
      simp only [mapLine, if_pos, String.toList_append, List.append_assoc]
      rfl
    rw [hline, lex_space, lex_space, lex_plain (hcnt.append hd)]
    rfl
  have hline : (mapLine ports direction).toList = "  map".toList ++ ' ' ::
      (("cnt_" ++ direction).toList ++
      ' ' :: ("\x7b type inet_service : counter; elements = \x7b".toList ++
        ' ' :: ((elements (ports.map (mapEntry direction))).toList ++ ' ' ::
          "\x7d \x7d".toList))) := by
    simp only [mapLine, if_neg h0, String.toList_append, List.append_assoc]
    rfl
  have hwords : ((ports.map (mapEntry direction)).map fun v => lex v.toList) =
      ports.map fun p => [toString p, ":", "\"" ++ counterText p direction ++ "\""] := by
    rw [List.map_map]
    refine List.map_congr_left fun p hp' => ?_
    obtain ⟨n, rfl⟩ := Int.eq_ofNat_of_zero_le (hp p hp')
    exact lex_mapEntry n hd
  rw [hline, lex_space, lex_space, lex_space, lex_space, lex_plain (hcnt.append hd),
    lex_elements, hwords]
  have hread : readBody readEntry ("elements" :: "=" :: "\x7b" ::
      ([","].intercalate (ports.map fun p =>
        [toString p, ":", "\"" ++ counterText p direction ++ "\""]) ++
        ["\x7d", "\x7d"])) = some (ports.map fun p => (p, counterText p direction)) := by
    rw [readBody_elements (by simpa using h0)]
    · refine mapM_map_eq_some fun p hp' => ?_
      obtain ⟨n, rfl⟩ := Int.eq_ofNat_of_zero_le (hp p hp')
      simp only [readEntry, readNumber_toString, unquote_quoted]
      rfl
    · intro ws hws
      obtain ⟨p, hp', rfl⟩ := List.mem_map.1 hws
      obtain ⟨n, rfl⟩ := Int.eq_ofNat_of_zero_le (hp p hp')
      have hquote : Plain "\"" := ⟨by decide, List.all_eq_true.1 (by decide)⟩
      have hname := (hquote.append (plain_counterText n hd)).append hquote
      simp only [List.mem_cons, List.not_mem_nil, or_false, not_or]
      exact ⟨⟨ne_of_plain (plain_toString n) rfl, by decide, ne_of_plain hname rfl⟩,
        ne_of_plain (plain_toString n) rfl, by decide, ne_of_plain hname rfl⟩
  change (readBody readEntry _).map (Item.map ("cnt_" ++ direction)) = _
  exact congrArg (Option.map (Item.map ("cnt_" ++ direction))) hread

/-! ## The script, read back -/

theorem Plain.no_newline {s : String} (h : Plain s) : '\n' ∉ s.toList :=
  fun hc => ne_of_isWordChar (h.2 _ hc) rfl rfl

theorem no_newline_elements {values : List String} (h : ∀ v ∈ values, '\n' ∉ v.toList) :
    '\n' ∉ (elements values).toList := by
  unfold elements
  induction values with
  | nil => decide
  | cons v vs ih =>
    cases vs with
    | nil => simpa using h v
    | cons u us =>
      rw [String.intercalate_cons_cons, String.toList_append, String.toList_append, List.mem_append,
        List.mem_append, not_or, not_or]
      exact ⟨⟨h v List.mem_cons_self, by decide⟩, ih fun w hw => h w (List.mem_cons_of_mem _ hw)⟩

theorem plain_up : Plain "up" := ⟨by decide, List.all_eq_true.1 (by decide)⟩

theorem plain_down : Plain "down" := ⟨by decide, List.all_eq_true.1 (by decide)⟩

theorem plain_counterNames {p : ℤ} (hp : 0 ≤ p) {name : String} (h : name ∈ counterNames p) :
    Plain name := by
  obtain ⟨n, rfl⟩ := Int.eq_ofNat_of_zero_le hp
  simp only [counterNames, List.mem_cons, List.not_mem_nil, or_false] at h
  rcases h with rfl | rfl
  · exact plain_counterText n plain_up
  · exact plain_counterText n plain_down

theorem no_newline_setLine {blocked : List ℤ} (hb : ∀ p ∈ blocked, 0 ≤ p) :
    '\n' ∉ (setLine blocked).toList := by
  have hvalues : ∀ v ∈ blocked.map toString, '\n' ∉ v.toList := by
    intro v hv
    obtain ⟨p, hp, rfl⟩ := List.mem_map.1 hv
    obtain ⟨n, rfl⟩ := Int.eq_ofNat_of_zero_le (hb p hp)
    exact (plain_toString n).no_newline
  unfold setLine
  by_cases h0 : blocked = []
  · subst h0
    decide
  · rw [if_neg h0]
    simp only [String.toList_append, List.mem_append, not_or]
    exact ⟨⟨by decide, ⟨by decide, no_newline_elements hvalues⟩, by decide⟩, by decide⟩

theorem no_newline_mapLine {ports : List ℤ} {direction : String} (hd : Plain direction)
    (hp : ∀ p ∈ ports, 0 ≤ p) : '\n' ∉ (mapLine ports direction).toList := by
  have hvalues : ∀ v ∈ ports.map (mapEntry direction), '\n' ∉ v.toList := by
    intro v hv
    obtain ⟨p, hp', rfl⟩ := List.mem_map.1 hv
    obtain ⟨n, rfl⟩ := Int.eq_ofNat_of_zero_le (hp p hp')
    unfold mapEntry
    simp only [String.toList_append, List.mem_append, not_or]
    exact ⟨⟨⟨(plain_toString n).no_newline, by decide⟩,
      (plain_counterText n hd).no_newline⟩, by decide⟩
  unfold mapLine
  by_cases h0 : ports = []
  · rw [if_pos h0]
    simp only [String.toList_append, List.mem_append, not_or]
    exact ⟨⟨by decide, hd.no_newline⟩, by decide⟩
  · rw [if_neg h0]
    simp only [String.toList_append, List.mem_append, not_or]
    exact ⟨⟨⟨⟨by decide, hd.no_newline⟩, by decide⟩, no_newline_elements hvalues⟩, by decide⟩

theorem no_newline_scriptLines {r : Ruleset} (hp : ∀ p ∈ r.ports, 0 ≤ p)
    (hb : ∀ p ∈ r.blocked, 0 ≤ p) : ∀ line ∈ scriptLines r, '\n' ∉ line.toList := by
  intro line h
  simp only [scriptLines, List.mem_append, List.mem_flatMap, List.mem_map, List.mem_singleton] at h
  rcases h with (((h | ⟨p, hport, name, hname, rfl⟩) | rfl) | ⟨direction, hdir, rfl⟩) | h
  · revert line
    decide
  · unfold counterLine
    simp only [String.toList_append, List.mem_append, not_or]
    exact ⟨⟨by decide, (plain_counterNames (hp p hport) hname).no_newline⟩, by decide⟩
  · exact no_newline_setLine hb
  · simp only [List.mem_cons, List.not_mem_nil, or_false] at hdir
    rcases hdir with rfl | rfl
    · exact no_newline_mapLine plain_up hp
    · exact no_newline_mapLine plain_down hp
  · revert line
    decide

/-- A script is read as its lines, one after the other. -/
theorem readScript_lines {lines : List String} (h : ∀ line ∈ lines, '\n' ∉ line.toList)
    (hne : lines ≠ []) :
    readScript ("\n".intercalate lines ++ "\n") = lines.filterMap fun line =>
      readLine (lex line.toList) := by
  have htext : ("\n".intercalate lines ++ "\n").toList =
      ['\n'].intercalate ((lines ++ [""]).map String.toList) := by
    have hlast := String.intercalate_append_of_ne_nil (s := "\n") hne (List.cons_ne_nil "" [])
    rw [String.intercalate_singleton, String.append_empty] at hlast
    rw [← hlast, String.toList_intercalate]
    rfl
  rw [readScript, htext, List.splitOn_intercalate]
  · rw [List.map_append, List.filterMap_append, List.filterMap_map]
    exact List.append_nil _
  · intro cs hcs
    obtain ⟨line, hline, rfl⟩ := List.mem_map.1 hcs
    rcases List.mem_append.1 hline with hline | hline
    · exact h line hline
    · rw [List.mem_singleton.1 hline]
      decide
  · simp

theorem filterMap_eq_map {α β γ : Type} {f : α → β} {read : β → Option γ} {g : α → γ} {xs : List α}
    (h : ∀ x ∈ xs, read (f x) = some (g x)) : (xs.map f).filterMap read = xs.map g := by
  rw [List.filterMap_map, ← List.filterMap_eq_map]
  exact List.filterMap_congr h

/-- Reading the text of a ruleset gives what it declares. -/
theorem readScript_text {r : Ruleset} (hp : ∀ p ∈ r.ports, 0 ≤ p) (hb : ∀ p ∈ r.blocked, 0 ≤ p) :
    readScript r.text = declared r := by
  rw [text_eq, readScript_lines (no_newline_scriptLines hp hb) (by simp [scriptLines, headLines])]
  have hcounters : (r.ports.flatMap fun p => (counterNames p).map counterLine).filterMap
      (fun line => readLine (lex line.toList)) = r.ports.flatMap fun p =>
      (counterNames p).map Item.counter := by
    rw [List.filterMap_flatMap]
    refine List.flatMap_congr fun p hport => filterMap_eq_map fun name hname => ?_
    exact readLine_counter (plain_counterNames (hp p hport) hname)
  have hmaps : (["up", "down"].map (mapLine r.ports)).filterMap
      (fun line => readLine (lex line.toList)) =
      ["up", "down"].map fun direction => .map ("cnt_" ++ direction)
      (r.ports.map fun p => (p, counterText p direction)) := by
    refine filterMap_eq_map fun direction hdir => ?_
    simp only [List.mem_cons, List.not_mem_nil, or_false] at hdir
    rcases hdir with rfl | rfl
    · exact readLine_map plain_up hp
    · exact readLine_map plain_down hp
  have hhead : headLines.filterMap (fun line => readLine (lex line.toList)) = [] := by decide
  have hchains : chainLines.filterMap (fun line => readLine (lex line.toList)) = [] := by decide
  have hset : [setLine r.blocked].filterMap (fun line => readLine (lex line.toList)) =
      [.set "blocked" r.blocked] := by
    rw [List.filterMap_cons, readLine_set hb, List.filterMap_nil]
  simp only [scriptLines, List.filterMap_append]
  rw [hhead, hchains, hcounters, hmaps, hset, List.nil_append, List.append_nil]
  rfl

/-! ## What a script says -/

def declaredCounters (script : List Item) : List String :=
  script.filterMap fun
    | .counter name => some name
    | _ => none

def declaredSets (script : List Item) : List (String × List ℤ) :=
  script.filterMap fun
    | .set name xs => some (name, xs)
    | _ => none

def declaredMaps (script : List Item) : List (String × List (ℤ × String)) :=
  script.filterMap fun
    | .map name entries => some (name, entries)
    | _ => none

/-- Every port once, with its own counter. -/
def Binds (entries : List (ℤ × String)) (ports : List ℤ) (direction : String) : Prop :=
  (entries.map Prod.fst).Nodup ∧ ∀ p name, (p, name) ∈ entries ↔ p ∈ ports ∧
    name = counterText p direction

/-- A script says which ports there are and which of them are blocked. -/
structure Says (script : List Item) (ports blocked : List ℤ) : Prop where
  once : (declaredCounters script).Nodup
  counters : ∀ name, name ∈ declaredCounters script ↔ ∃ p ∈ ports, name = counterText p "up" ∨
    name = counterText p "down"
  blocked : ∃ xs, declaredSets script = [("blocked", xs)] ∧ xs.Nodup ∧ ∀ p, p ∈ xs ↔
    p ∈ blocked ∧ p ∈ ports
  maps : ∃ up down, declaredMaps script = [("cnt_up", up), ("cnt_down", down)] ∧
    Binds up ports "up" ∧ Binds down ports "down"

theorem declaredCounters_declared (r : Ruleset) :
    declaredCounters (declared r) = r.ports.flatMap counterNames := by
  have hports : ∀ ps : List ℤ,
      declaredCounters (ps.flatMap fun p => (counterNames p).map .counter) =
      ps.flatMap counterNames := by
    intro ps
    induction ps with
    | nil => rfl
    | cons p ps ih =>
      rw [List.flatMap_cons, List.flatMap_cons, ← ih]
      rfl
  rw [declared, declaredCounters, List.filterMap_append, List.filterMap_append]
  refine (congrArg₂ (· ++ ·) (congrArg₂ (· ++ ·) (hports r.ports) rfl) rfl).trans ?_
  simp

theorem declaredSets_declared (r : Ruleset) :
    declaredSets (declared r) = [("blocked", r.blocked)] := by
  have hports : ∀ ps : List ℤ, declaredSets (ps.flatMap fun p => (counterNames p).map .counter) =
      [] := by
    intro ps
    induction ps with
    | nil => rfl
    | cons p ps ih => exact ih
  rw [declared, declaredSets, List.filterMap_append, List.filterMap_append]
  exact congrArg₂ (· ++ ·) (congrArg₂ (· ++ ·) (hports r.ports) rfl) rfl

theorem declaredMaps_declared (r : Ruleset) : declaredMaps (declared r) =
    [("cnt_up", r.ports.map fun p => (p, counterText p "up")),
      ("cnt_down", r.ports.map fun p => (p, counterText p "down"))] := by
  have hports : ∀ ps : List ℤ, declaredMaps (ps.flatMap fun p => (counterNames p).map .counter) =
      [] := by
    intro ps
    induction ps with
    | nil => rfl
    | cons p ps ih => exact ih
  rw [declared, declaredMaps, List.filterMap_append, List.filterMap_append]
  exact congrArg₂ (· ++ ·) (congrArg₂ (· ++ ·) (hports r.ports) rfl) rfl

theorem binds_ports {ports ports' : List ℤ} (hnodup : ports'.Nodup)
    (h : ∀ p, p ∈ ports' ↔ p ∈ ports) (direction : String) :
    Binds (ports'.map fun p => (p, counterText p direction)) ports direction := by
  constructor
  · rw [List.map_map]
    exact (List.map_id ports').symm ▸ hnodup
  · intro p name
    rw [List.mem_map]
    constructor
    · rintro ⟨q, hq, heq⟩
      obtain ⟨rfl, rfl⟩ := Prod.mk.inj heq
      exact ⟨(h q).1 hq, rfl⟩
    · rintro ⟨hp, rfl⟩
      exact ⟨p, (h p).2 hp, rfl⟩

/-- `build_ruleset` depends on the two sets only. -/
theorem buildRuleset_congr {ports ports' blocked blocked' : List ℤ}
    (hp : ∀ p, p ∈ ports' ↔ p ∈ ports) (hb : ∀ p, p ∈ blocked' ↔ p ∈ blocked) :
    buildRuleset ports' blocked' = buildRuleset ports blocked := by
  have hset : ∀ {xs ys : List ℤ}, (∀ p, p ∈ xs ↔ p ∈ ys) → sortedSet xs = sortedSet ys := by
    intro xs ys h
    refine (sortedSet_pairwise xs).eq_of_mem_iff (sortedSet_pairwise ys) fun p => ?_
    rw [mem_sortedSet, mem_sortedSet, h]
  have hports := hset hp
  simp only [buildRuleset, hports, Ruleset.mk.injEq, true_and]
  refine hset fun p => ?_
  simp only [List.mem_filter, hb]

end Ctl
end WebProxyPanel
