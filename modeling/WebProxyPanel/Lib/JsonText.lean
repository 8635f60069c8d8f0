import WebProxyPanel.Lib.Decimal
import WebProxyPanel.Lib.Encoding
/-!
# JSON as text

Writing and reading in the manner of Python's `json`: `write` with or without escapes for what is
not ASCII, on one line or indented, and `read` with the white space, the escapes, the surrogate
pairs and the numbers that the format allows.

* `readString_quoted` — an escaped text reads back, surrogate pairs included.
* `readNumber_toString` — so does a number, wherever it ends.
* `read_write` — so does every value without a fraction in it and without a key twice.
* `ascii_write` — a text with all escapes is ASCII.

A number with a fraction or an exponent stays as it is written. A surrogate that is not one of a
pair is refused.
-/

namespace JsonText

inductive Datum where
  | null
  | bool (b : Bool)
  | int (i : Int)
  /-- A number with a fraction or an exponent, or one of `NaN`, `Infinity` and `-Infinity`. -/
  | float (text : List Char)
  | str (s : String)
  | arr (xs : List Datum)
  | obj (members : List (String × Datum))

/-! ## Writing -/

/-- How a value is written: with escapes for all that is not ASCII, and on lines of their own, so
many blanks further in at each level. -/
structure Style where
  ascii : Bool
  indent : Option Nat
deriving DecidableEq, Repr

/-- Four hexadecimal digits. -/
def hex4 (n : Nat) : List Char :=
  [Nat.digitChar (n / 4096), Nat.digitChar (n / 256 % 16), Nat.digitChar (n / 16 % 16),
    Nat.digitChar (n % 16)]

/-- The units of UTF-16. -/
def utf16 (n : Nat) : List Nat :=
  if n < 0x10000 then [n] else [0xd800 + (n - 0x10000) / 1024, 0xdc00 + (n - 0x10000) % 1024]

/-- The characters with an escape of their own, and what follows the backslash. -/
def shortEscapes : List (Char × Char) :=
  [('\"', '\"'), ('\\', '\\'), ('\n', 'n'), ('\r', 'r'), ('\t', 't'), ('\x0c', 'f'), ('\x08', 'b')]

def escape (ascii : Bool) (c : Char) : List Char :=
  match shortEscapes.lookup c with
  | some e => ['\\', e]
  | none =>
    if c.toNat < 32 ∨ (ascii ∧ 127 ≤ c.toNat) then
      (utf16 c.toNat).flatMap fun u => '\\' :: 'u' :: hex4 u
    else [c]

def quoted (ascii : Bool) (s : String) : List Char :=
  '\"' :: (s.toList.flatMap (escape ascii) ++ ['\"'])

/-- A new line at this depth, if there are any. -/
def Style.newline (st : Style) (depth : Nat) : List Char :=
  match st.indent with
  | some n => '\n' :: List.replicate (n * depth) ' '
  | none => []

/-- Between two items at this depth. -/
def Style.comma (st : Style) (depth : Nat) : List Char :=
  ',' :: (if st.indent = none then [' '] else st.newline depth)

mutual
/-- A value whose closing bracket is at this depth. -/
def write (st : Style) (depth : Nat) : Datum → List Char
  | .null => "null".toList
  | .bool true => "true".toList
  | .bool false => "false".toList
  | .int i => (toString i).toList
  | .float text => text
  | .str s => quoted st.ascii s
  | .arr [] => "[]".toList
  | .arr (x :: xs) =>
    '[' :: (st.newline (depth + 1) ++ write st (depth + 1) x ++ writeItems st depth xs)
  | .obj [] => "\x7b\x7d".toList
  | .obj ((k, x) :: kvs) =>
    '\x7b' :: (st.newline (depth + 1) ++ quoted st.ascii k ++ ':' :: ' ' :: write st (depth + 1)
      x ++ writeMembers st depth kvs)
/-- The items after the first one. -/
def writeItems (st : Style) (depth : Nat) : List Datum → List Char
  | [] => st.newline depth ++ [']']
  | x :: xs => st.comma (depth + 1) ++ write st (depth + 1) x ++ writeItems st depth xs
/-- The members after the first one. -/
def writeMembers (st : Style) (depth : Nat) : List (String × Datum) → List Char
  | [] => st.newline depth ++ ['\x7d']
  | (k, x) :: kvs =>
    st.comma (depth + 1) ++ quoted st.ascii k ++ ':' :: ' ' :: write st (depth + 1) x ++
      writeMembers st depth kvs
end

/-! ## Reading -/

def isBlank (c : Char) : Bool := c = ' ' || c = '\t' || c = '\n' || c = '\r'

def skip (cs : List Char) : List Char := cs.dropWhile isBlank

/-- What follows a backslash, other than `u`. -/
def unescape (c : Char) : Option Char :=
  if c = '/' then some '/' else (shortEscapes.map Prod.swap).lookup c

def unhex4 (a b c d : Char) : Option Nat := do
  let a ← Encoding.hexValue a
  let b ← Encoding.hexValue b
  let c ← Encoding.hexValue c
  let d ← Encoding.hexValue d
  pure (4096 * a + 256 * b + 16 * c + d)

/-- The code units up to the closing quote, and what follows it. -/
def units : List Char → Option (List Nat × List Char)
  | [] => none
  | '\\' :: 'u' :: a :: b :: c :: d :: cs => do
    let u ← unhex4 a b c d
    let (us, rest) ← units cs
    pure (u :: us, rest)
  | '\\' :: e :: cs => do
    let c ← unescape e
    let (us, rest) ← units cs
    pure (c.toNat :: us, rest)
  | c :: cs =>
    if c = '\"' then some ([], cs)
    else if c.toNat < 32 then none
    else do
      let (us, rest) ← units cs
      pure (c.toNat :: us, rest)

def isHigh (u : Nat) : Bool := 0xd800 ≤ u && u < 0xdc00
def isLow (u : Nat) : Bool := 0xdc00 ≤ u && u < 0xe000

/-- Code units as characters. -/
def characters : List Nat → Option (List Char)
  | [] => some []
  | [u] => if isHigh u || isLow u then none else some [Char.ofNat u]
  | u :: v :: us =>
    if isHigh u && isLow v then
      (characters us).map (Char.ofNat (0x10000 + (u - 0xd800) * 1024 + (v - 0xdc00)) :: ·)
    else if isHigh u || isLow u then none
    else (characters (v :: us)).map (Char.ofNat u :: ·)

/-- A string after its opening quote. -/
def readString (cs : List Char) : Option (String × List Char) := do
  let (us, rest) ← units cs
  let text ← characters us
  pure (String.ofList text, rest)

/-- A mark and the digits after it, if there are any. -/
def readFraction : List Char → Option (List Char × List Char)
  | '.' :: cs =>
    if (cs.takeWhile Char.isDigit) = [] then none else
      some ('.' :: cs.takeWhile Char.isDigit, cs.dropWhile Char.isDigit)
  | _ => none

def readExponent : List Char → Option (List Char × List Char)
  | e :: cs =>
    if e = 'e' ∨ e = 'E' then
      let sign := cs.takeWhile fun c => c = '+' || c = '-'
      let ds := cs.dropWhile fun c => c = '+' || c = '-'
      if sign.length ≤ 1 ∧ ds.takeWhile Char.isDigit ≠ [] then
        some (e :: (sign ++ ds.takeWhile Char.isDigit), ds.dropWhile Char.isDigit) else none
    else none
  | [] => none

/-- The digits of the whole part: a zero alone, or any that do not begin with one. -/
def readDigits : List Char → Option (List Char × List Char)
  | '0' :: cs => some (['0'], cs)
  | cs =>
    if cs.takeWhile Char.isDigit = [] then none else
      some (cs.takeWhile Char.isDigit, cs.dropWhile Char.isDigit)

def readSign : List Char → List Char × List Char
  | '-' :: cs => (['-'], cs)
  | cs => ([], cs)

def readNumber (cs : List Char) : Option (Datum × List Char) := do
  let (sign, cs) := readSign cs
  let (ds, cs) ← readDigits cs
  let (fraction, cs) := (readFraction cs).getD ([], cs)
  let (exponent, cs) := (readExponent cs).getD ([], cs)
  if fraction = [] ∧ exponent = [] then
    let n : Int := Nat.ofDigitChars 10 ds 0
    pure (.int (if sign = [] then n else -n), cs)
  else pure (.float (sign ++ ds ++ fraction ++ exponent), cs)

/-- The words that stand for values. -/
def words : List (List Char × Datum) :=
  [("null".toList, .null), ("true".toList, .bool true), ("false".toList, .bool false),
    ("NaN".toList, .float "NaN".toList),
   ("Infinity".toList, .float "Infinity".toList), ("-Infinity".toList, .float "-Infinity".toList)]

def readWord (cs : List Char) : Option (Datum × List Char) :=
  words.findSome? fun w => (Encoding.cutHead w.1 cs).map fun rest => (w.2, rest)

/-- Python's `d[key] = value`: a key that is there keeps its place. -/
def setMember {κ β : Type} [DecidableEq κ] (kvs : List (κ × β)) (kv : κ × β) : List (κ × β) :=
  if kvs.any (·.1 = kv.1) then kvs.map fun x => if x.1 = kv.1 then (x.1, kv.2) else
    x else kvs ++ [kv]

/-- A later member of the same name takes the place of the earlier one. -/
def asDict {κ β : Type} [DecidableEq κ] (kvs : List (κ × β)) : List (κ × β) :=
  kvs.foldl setMember []

mutual
/-- A value, at its first character. -/
def readValue : Nat → List Char → Option (Datum × List Char)
  | 0, _ => none
  | _ + 1, [] => none
  | n + 1, c :: cs =>
    if c = '\"' then do
      let (s, rest) ← readString cs
      pure (.str s, rest)
    else if c = '[' then
      match skip cs with
      | ']' :: rest => some (.arr [], rest)
      | cs => do
        let (xs, rest) ← readItems n cs
        pure (.arr xs, rest)
    else if c = '\x7b' then
      match skip cs with
      | '\x7d' :: rest => some (.obj [], rest)
      | cs => do
        let (kvs, rest) ← readMembers n cs
        pure (.obj (asDict kvs), rest)
    else (readWord (c :: cs)).or (readNumber (c :: cs))
/-- Items up to the bracket, at the first character of one. -/
def readItems : Nat → List Char → Option (List Datum × List Char)
  | 0, _ => none
  | n + 1, cs => do
    let (x, cs) ← readValue n cs
    match skip cs with
    | ']' :: rest => pure ([x], rest)
    | ',' :: cs => do
      let (xs, rest) ← readItems n (skip cs)
      pure (x :: xs, rest)
    | _ => none
/-- Members up to the brace, at the first character of one. -/
def readMembers : Nat → List Char → Option (List (String × Datum) × List Char)
  | 0, _ => none
  | _ + 1, [] => none
  | n + 1, c :: cs => do
    if c ≠ '\"' then none
    else
      let (k, cs) ← readString cs
      match skip cs with
      | ':' :: cs => do
        let (x, cs) ← readValue n (skip cs)
        match skip cs with
        | '\x7d' :: rest => pure ([(k, x)], rest)
        | ',' :: cs => do
          let (kvs, rest) ← readMembers n (skip cs)
          pure ((k, x) :: kvs, rest)
        | _ => none
      | _ => none
end

/-- A whole text. -/
def read (cs : List Char) : Option Datum := do
  let (x, rest) ← readValue (cs.length + 1) (skip cs)
  if skip rest = [] then some x else none

/-! ## Strings -/

theorem unhex4_hex4 {n : Nat} (h : n < 65536) (cs : List Char) :
    ∃ a b c d, hex4 n ++ cs = a :: b :: c :: d :: cs ∧ unhex4 a b c d = some n := by
  refine ⟨_, _, _, _, rfl, ?_⟩
  have hdigit : ∀ m, m < 16 → Encoding.hexValue (Nat.digitChar m) = some m :=
    fun m => Encoding.hexValue_digitChar
  rw [unhex4, hdigit _ (by omega), hdigit _ (by omega), hdigit _ (by omega), hdigit _ (by omega)]
  simp only [Option.bind_eq_bind, Option.bind_some, Option.pure_def, Option.some.injEq]
  omega

theorem units_hex4 {n : Nat} (h : n < 65536) (cs : List Char) :
    units ('\\' :: 'u' :: hex4 n ++ cs) = (units cs).map fun p => (n :: p.1, p.2) := by
  obtain ⟨a, b, c, d, hcs, hn⟩ := unhex4_hex4 h cs
  rw [List.cons_append, List.cons_append, hcs, units, hn]
  cases units cs <;> rfl

theorem lt_of_mem_utf16 (c : Char) : ∀ u ∈ utf16 c.toNat, u < 65536 := by
  have hc : c.toNat < 0x110000 := by
    rcases c.valid with h | h
    · exact Nat.lt_trans h (by decide)
    · exact h.2
  unfold utf16
  split
  · intro u hu
    rw [List.mem_singleton.1 hu]
    assumption
  · intro u hu
    rw [List.mem_cons, List.mem_singleton] at hu
    rcases hu with hu | hu <;> omega

/-- The code units that an escaped character reads back as. -/
def unitsOf (ascii : Bool) (c : Char) : List Nat :=
  if (shortEscapes.lookup c).isNone ∧ (c.toNat < 32 ∨ (ascii ∧ 127 ≤ c.toNat)) then
    utf16 c.toNat else [c.toNat]

theorem units_flatMap : ∀ {us : List Nat}, (∀ u ∈ us, u < 65536) → ∀ cs : List Char,
    units ((us.flatMap fun u => '\\' :: 'u' :: hex4 u) ++ cs) = (units cs).map fun p =>
      (us ++ p.1, p.2)
  | [], _, cs => by simp
  | u :: us, h, cs => by
    rw [List.flatMap_cons, List.append_assoc, units_hex4 (h u List.mem_cons_self),
      units_flatMap (fun v hv => h v (List.mem_cons_of_mem _ hv)), Option.map_map]
    rfl

/-- A backslash and the letter of an escape. -/
theorem units_short :
    ∀ x ∈ shortEscapes, ∀ cs, units ('\\' :: x.2 :: cs) = (units cs).map fun p =>
      (x.1.toNat :: p.1, p.2) := by
  intro x hx cs
  simp only [shortEscapes, List.mem_cons, List.not_mem_nil, or_false] at hx
  rcases hx with rfl | rfl | rfl | rfl | rfl | rfl | rfl <;> exact (Option.map_eq_bind ..).symm

/-- A character that stands for itself. -/
theorem units_plain {c : Char} (hb : c ≠ '\\') (hq : c ≠ '\"') (hc : 32 ≤ c.toNat)
    (cs : List Char) : units (c :: cs) = (units cs).map fun p => (c.toNat :: p.1, p.2) := by
  rw [units.eq_def]
  split
  · simp_all
  · simp_all
  · simp_all
  · rename_i h
    obtain ⟨rfl, rfl⟩ := List.cons.inj h
    rw [if_neg hq, if_neg (by omega)]
    exact (Option.map_eq_bind ..).symm

theorem lookup_shortEscapes {c : Char} (h : shortEscapes.lookup c = none) :
    c ≠ '\\' ∧ c ≠ '\"' := by
  constructor <;> rintro rfl <;> revert h <;> decide

theorem units_escape (ascii : Bool) (c : Char) (cs : List Char) :
    units (escape ascii c ++ cs) = (units cs).map fun p => (unitsOf ascii c ++ p.1, p.2) := by
  unfold escape unitsOf
  cases he : shortEscapes.lookup c with
  | some e =>
    obtain ⟨l₁, l₂, hl, -⟩ := List.lookup_eq_some_iff.1 he
    exact units_short (c, e) (hl ▸ List.mem_append_right _ List.mem_cons_self) cs
  | none =>
    by_cases hu : c.toNat < 32 ∨ (ascii = true ∧ 127 ≤ c.toNat)
    · simp only [hu, if_true, Option.isNone_none, and_self]
      exact units_flatMap (lt_of_mem_utf16 c) cs
    · simp only [hu, if_false, and_false]
      obtain ⟨hb, hq⟩ := lookup_shortEscapes he
      rw [not_or] at hu
      exact units_plain hb hq (by omega) cs

/-! ### Surrogates -/

/-- Code points that are not surrogates. -/
theorem not_surrogate (c : Char) : isHigh c.toNat = false ∧ isLow c.toNat = false := by
  have hv : c.toNat < 0xd800 ∨ 0xdfff < c.toNat ∧ c.toNat < 0x110000 := c.valid
  unfold isHigh isLow
  constructor
  · rw [Bool.and_eq_false_iff, decide_eq_false_iff_not, decide_eq_false_iff_not]
    omega
  · rw [Bool.and_eq_false_iff, decide_eq_false_iff_not, decide_eq_false_iff_not]
    omega

theorem characters_single (c : Char) (us : List Nat) :
    characters (c.toNat :: us) = (characters us).map (c :: ·) := by
  obtain ⟨hhigh, hlow⟩ := not_surrogate c
  cases us with
  | nil => simp [characters, hhigh, hlow]
  | cons v us => simp [characters, hhigh, hlow]

theorem characters_unitsOf (ascii : Bool) (c : Char) (us : List Nat) :
    characters (unitsOf ascii c ++ us) = (characters us).map (c :: ·) := by
  unfold unitsOf
  split
  · unfold utf16
    split
    · exact characters_single c us
    · have hv : c.toNat < 0xd800 ∨ 0xdfff < c.toNat ∧ c.toNat < 0x110000 := c.valid
      have hhigh : isHigh (0xd800 + (c.toNat - 0x10000) / 1024) = true := by
        rw [isHigh, Bool.and_eq_true, decide_eq_true_eq, decide_eq_true_eq]
        omega
      have hlow : isLow (0xdc00 + (c.toNat - 0x10000) % 1024) = true := by
        rw [isLow, Bool.and_eq_true, decide_eq_true_eq, decide_eq_true_eq]
        omega
      have hsum : 0x10000 + (0xd800 + (c.toNat - 0x10000) / 1024 - 0xd800) * 1024 +
          (0xdc00 + (c.toNat - 0x10000) % 1024 - 0xdc00) = c.toNat := by
        omega
      rw [List.cons_append, List.cons_append, List.nil_append, characters, hhigh, hlow,
        Bool.and_self, if_pos rfl, hsum, Char.ofNat_toNat]
  · exact characters_single c us

theorem readString_quoted (ascii : Bool) (s : String) (rest : List Char) :
    readString (s.toList.flatMap (escape ascii) ++ '\"' :: rest) = some (s, rest) := by
  have hunits : ∀ cs : List Char, units (cs.flatMap (escape ascii) ++ '\"' :: rest) =
      some (cs.flatMap (unitsOf ascii), rest) := by
    intro cs
    induction cs with
    | nil => rfl
    | cons c cs ih =>
      rw [List.flatMap_cons, List.append_assoc, units_escape, ih]
      rfl
  have hchars : ∀ cs : List Char, characters (cs.flatMap (unitsOf ascii)) = some cs := by
    intro cs
    induction cs with
    | nil => rfl
    | cons c cs ih =>
      rw [List.flatMap_cons, characters_unitsOf, ih]
      rfl
  rw [readString, hunits]
  simp only [Option.bind_eq_bind, Option.bind_some, hchars, String.ofList_toList, Option.pure_def]

/-! ## Numbers -/

/-- A number before this text ends where the text begins. -/
def Stops (rest : List Char) : Prop :=
  ∀ c ∈ rest.head?, c.isDigit = false ∧ c ≠ '.' ∧ c ≠ 'e' ∧ c ≠ 'E'

theorem stops_nil : Stops [] := fun _ h => absurd h (by simp)

theorem stops_cons {c : Char} (h : c.isDigit = false ∧ c ≠ '.' ∧ c ≠ 'e' ∧ c ≠ 'E')
    (cs : List Char) : Stops (c :: cs) := by
  intro d hd
  obtain rfl : c = d := by simpa using hd
  exact h

theorem span_digits {ds rest : List Char} (hds : ∀ c ∈ ds, c.isDigit = true) (h : Stops rest) :
    (ds ++ rest).takeWhile Char.isDigit = ds ∧ (ds ++ rest).dropWhile Char.isDigit = rest := by
  have hrest : rest.takeWhile Char.isDigit = [] ∧ rest.dropWhile Char.isDigit = rest := by
    cases rest with
    | nil => exact ⟨rfl, rfl⟩
    | cons c cs =>
      have hc := (h c rfl).1
      simp [hc]
  rw [List.takeWhile_append_of_pos hds, List.dropWhile_append_of_pos hds, hrest.1, hrest.2,
    List.append_nil]
  exact ⟨rfl, rfl⟩

theorem readDigits_append {ds rest : List Char} (hds : Decimal.Canonical ds) (h : Stops rest) :
    readDigits (ds ++ rest) = some (ds, rest) := by
  obtain ⟨hall, hne, hzero⟩ := hds
  obtain ⟨d, ds, rfl⟩ := List.exists_cons_of_ne_nil hne
  obtain ⟨htake, hdrop⟩ := span_digits (List.all_eq_true.1 hall) h
  by_cases hd : d = '0'
  · obtain rfl : ds = [] := by simpa [hd] using hzero (by simp [hd])
    rw [hd]
    rfl
  · rw [readDigits.eq_def]
    split
    · rename_i cs hcs
      exact absurd (List.cons.inj hcs).1 hd
    · rw [htake, hdrop, if_neg hne]

theorem readFraction_stops {rest : List Char} (h : Stops rest) : readFraction rest = none := by
  unfold readFraction
  split
  · exact absurd rfl (h '.' rfl).2.1
  · rfl

theorem readExponent_stops {rest : List Char} (h : Stops rest) : readExponent rest = none := by
  unfold readExponent
  split
  · rename_i e cs
    obtain ⟨-, -, he, he'⟩ := h e rfl
    rw [if_neg (by simp [he, he'])]
  · rfl

theorem canonical_head {ds : List Char} (h : Decimal.Canonical ds) :
    ∃ d cs, ds = d :: cs ∧ d.isDigit = true := by
  obtain ⟨d, cs, rfl⟩ := List.exists_cons_of_ne_nil h.2.1
  exact ⟨d, cs, rfl, List.all_eq_true.1 h.1 d List.mem_cons_self⟩

theorem toString_ofNat (n : Nat) : (toString (Int.ofNat n)).toList = Nat.toDigits 10 n := by
  have : toString (Int.ofNat n) = toString n := rfl
  rw [this, Nat.toString_eq_ofList_toDigits, String.toList_ofList]

theorem toString_negSucc (n : Nat) :
    (toString (Int.negSucc n)).toList = '-' :: Nat.toDigits 10 (n + 1) := by
  have : toString (Int.negSucc n) = "-" ++ toString (n + 1) := rfl
  have hdigits : (toString (n + 1)).toList = Nat.toDigits 10 (n + 1) := toString_ofNat (n + 1)
  rw [this, String.toList_append, hdigits]
  rfl

/-- The first characters of a number. -/
theorem toString_head (i : Int) : ∃ c cs, (toString i).toList = c :: cs ∧
    (c.isDigit = true ∨ c = '-' ∧ ∃ d ds, cs = d :: ds ∧ d.isDigit = true) := by
  cases i with
  | ofNat n =>
    obtain ⟨d, cs, hds, hd⟩ := canonical_head (Decimal.canonical_toDigits n)
    exact ⟨d, cs, (toString_ofNat n).trans hds, Or.inl hd⟩
  | negSucc n =>
    obtain ⟨d, cs, hds, hd⟩ := canonical_head (Decimal.canonical_toDigits (n + 1))
    exact ⟨'-', d :: cs, by rw [toString_negSucc, hds], Or.inr ⟨rfl, d, cs, rfl, hd⟩⟩

theorem readNumber_toString (i : Int) {rest : List Char} (h : Stops rest) :
    readNumber ((toString i).toList ++ rest) = some (.int i, rest) := by
  have hafter : ∀ n : Nat, readDigits (Nat.toDigits 10 n ++ rest) =
      some (Nat.toDigits 10 n, rest) := fun n =>
    readDigits_append (Decimal.canonical_toDigits n) h
  cases i with
  | ofNat n =>
    obtain ⟨d, cs, hds, hd⟩ := canonical_head (Decimal.canonical_toDigits n)
    have hsign : readSign (Nat.toDigits 10 n ++ rest) = ([], Nat.toDigits 10 n ++ rest) := by
      rw [hds, List.cons_append]
      unfold readSign
      split
      · rename_i hcs
        rw [(List.cons.inj hcs).1] at hd
        exact absurd hd (by decide)
      · rfl
    rw [toString_ofNat, readNumber, hsign]
    simp only [hafter, Option.bind_eq_bind, Option.bind_some, readFraction_stops h,
      readExponent_stops h, Option.getD_none, and_self, if_true,
      Nat.ofDigitChars_toDigits (show 1 < 10 by decide) (show 10 ≤ 10 by decide), Option.pure_def]
    rfl
  | negSucc n =>
    rw [toString_negSucc, readNumber, List.cons_append, readSign]
    simp only [hafter, Option.bind_eq_bind, Option.bind_some, readFraction_stops h,
      readExponent_stops h, Option.getD_none, and_self, if_true,
      Nat.ofDigitChars_toDigits (show 1 < 10 by decide) (show 10 ≤ 10 by decide), Option.pure_def]
    rfl

theorem toString_injective {i j : Int} (h : toString i = toString j) : i = j := by
  have hi := readNumber_toString i stops_nil
  rw [h, readNumber_toString j stops_nil] at hi
  exact (Datum.int.inj (Prod.mk.inj (Option.some.inj hi)).1).symm

theorem readWord_digit {c : Char} (h : c.isDigit = true) (cs : List Char) :
    readWord (c :: cs) = none := by
  have hne : ∀ d : Char, d.isDigit = false → d ≠ c := by
    rintro d hd rfl
    rw [hd] at h
    cases h
  simp [readWord, words, Encoding.cutHead, hne 'n' rfl, hne 't' rfl, hne 'f' rfl, hne 'N' rfl,
    hne 'I' rfl, hne '-' rfl]

theorem readWord_minus {d : Char} (h : d.isDigit = true) (cs : List Char) :
    readWord ('-' :: d :: cs) = none := by
  have hne : 'I' ≠ d := by
    rintro rfl
    exact absurd h (by decide)
  simp [readWord, words, Encoding.cutHead, hne]

/-! ## Values -/

mutual
/-- No fraction in it, and no key twice. -/
def Datum.Exact : Datum → Prop
  | .float _ => False
  | .arr xs => ExactItems xs
  | .obj kvs => (kvs.map (·.1)).Nodup ∧ ExactMembers kvs
  | _ => True
def ExactItems : List Datum → Prop
  | [] => True
  | x :: xs => x.Exact ∧ ExactItems xs
def ExactMembers : List (String × Datum) → Prop
  | [] => True
  | (_, x) :: kvs => x.Exact ∧ ExactMembers kvs
end

theorem skip_cons {c : Char} (h : isBlank c = false) (cs : List Char) : skip (c :: cs) = c :: cs :=
  by simp [skip, h]

theorem skip_newline (st : Style) (depth : Nat) (cs : List Char) :
    skip (st.newline depth ++ cs) = skip cs := by
  unfold Style.newline
  split
  · rename_i n _
    have hblank : ∀ c ∈ '\n' :: List.replicate (n * depth) ' ', isBlank c = true := by
      intro c hc
      rcases List.mem_cons.1 hc with rfl | hc
      · rfl
      · rw [(List.mem_replicate.1 hc).2]
        rfl
    exact List.dropWhile_append_of_pos hblank
  · rfl

/-- A comma, and white space. -/
theorem comma_eq (st : Style) (depth : Nat) :
    ∃ cs, st.comma depth = ',' :: cs ∧ ∀ ds, skip (cs ++ ds) = skip ds := by
  refine ⟨_, rfl, fun ds => ?_⟩
  split
  · rfl
  · exact skip_newline st depth ds

/-- The first character of a value. -/
def Starts (c : Char) : Prop := isBlank c = false ∧ c ≠ ']' ∧ c ≠ '\x7d'

instance (c : Char) : Decidable (Starts c) := inferInstanceAs (Decidable (_ ∧ _ ∧ _))

theorem starts_of_isDigit {c : Char} (h : c.isDigit = true) : Starts c := by
  have hne : ∀ d : Char, d.isDigit = false → c ≠ d := by
    rintro d hd rfl
    rw [hd] at h
    cases h
  refine ⟨?_, hne _ rfl, hne _ rfl⟩
  simp [isBlank, hne ' ' rfl, hne '\t' rfl, hne '\n' rfl, hne '\r' rfl]

theorem write_head (st : Style) (depth : Nat) {v : Datum} (h : v.Exact) :
    ∃ c cs, write st depth v = c :: cs ∧ Starts c := by
  cases v with
  | null => exact ⟨'n', "ull".toList, rfl, by decide⟩
  | bool b =>
    cases b with
    | true => exact ⟨'t', "rue".toList, rfl, by decide⟩
    | false => exact ⟨'f', "alse".toList, rfl, by decide⟩
  | int i =>
    obtain ⟨c, cs, hcs, hc⟩ := toString_head i
    refine ⟨c, cs, hcs, ?_⟩
    rcases hc with hc | ⟨rfl, -⟩
    · exact starts_of_isDigit hc
    · decide
  | float text => exact h.elim
  | str s => exact ⟨_, _, rfl, by decide⟩
  | arr xs =>
    cases xs with
    | nil => exact ⟨'[', [']'], rfl, by decide⟩
    | cons x xs => exact ⟨'[', _, rfl, by decide⟩
  | obj kvs =>
    cases kvs with
    | nil => exact ⟨'\x7b', ['\x7d'], rfl, by decide⟩
    | cons kv kvs => exact ⟨'\x7b', _, rfl, by decide⟩

theorem skip_write (st : Style) (depth : Nat) {v : Datum} (h : v.Exact) (rest : List Char) :
    skip (write st depth v ++ rest) = write st depth v ++ rest := by
  obtain ⟨c, cs, hcs, hc⟩ := write_head st depth h
  rw [hcs, List.cons_append, skip_cons hc.1]

/-- What follows an item ends a number. -/
theorem stops_after (st : Style) (depth : Nat) {c : Char}
    (hc : c.isDigit = false ∧ c ≠ '.' ∧ c ≠ 'e' ∧ c ≠ 'E') (rest : List Char) :
    Stops (st.newline depth ++ c :: rest) := by
  unfold Style.newline
  split
  · exact stops_cons (by decide) _
  · exact stops_cons hc _

theorem stops_items (st : Style) (depth : Nat) (xs : List Datum) (rest : List Char) :
    Stops (writeItems st depth xs ++ rest) := by
  cases xs with
  | nil =>
    rw [writeItems, List.append_assoc]
    exact stops_after st depth (by decide) rest
  | cons x xs => exact stops_cons (by decide) _

theorem stops_members (st : Style) (depth : Nat) (kvs : List (String × Datum)) (rest : List Char) :
    Stops (writeMembers st depth kvs ++ rest) := by
  cases kvs with
  | nil =>
    rw [writeMembers, List.append_assoc]
    exact stops_after st depth (by decide) rest
  | cons kv kvs => exact stops_cons (by decide) _

section Dict
variable {κ β : Type} [DecidableEq κ]

theorem setMember_new {kvs : List (κ × β)} {kv : κ × β} (h : kv.1 ∉ kvs.map (·.1)) :
    setMember kvs kv = kvs ++ [kv] := by
  refine if_neg fun hany => h ?_
  obtain ⟨x, hx, he⟩ := List.any_eq_true.1 hany
  exact List.mem_map.2 ⟨x, hx, of_decide_eq_true he⟩

theorem asDict_of_nodup {kvs : List (κ × β)} (h : (kvs.map (·.1)).Nodup) : asDict kvs = kvs := by
  have aux : ∀ (xs ys : List (κ × β)), ((ys ++ xs).map (·.1)).Nodup →
      xs.foldl setMember ys = ys ++ xs := by
    intro xs
    induction xs with
    | nil => intro ys _; rw [List.append_nil]; rfl
    | cons x xs ih =>
      intro ys hnodup
      have hx : x.1 ∉ ys.map (·.1) := by
        rw [List.map_append, List.nodup_append] at hnodup
        exact fun hm => hnodup.2.2 _ hm x.1 (List.mem_map.2 ⟨x, List.mem_cons_self, rfl⟩) rfl
      rw [List.foldl_cons, setMember_new hx, ih _ (by rw [List.append_assoc]; exact hnodup),
        List.append_assoc]
      rfl
  exact aux kvs [] h

end Dict

/-- The items of a list that is not empty. -/
def itemsText (st : Style) (depth : Nat) : List Datum → List Char
  | [] => []
  | x :: xs => write st (depth + 1) x ++ writeItems st depth xs

def membersText (st : Style) (depth : Nat) : List (String × Datum) → List Char
  | [] => []
  | (k, x) :: kvs =>
    quoted st.ascii k ++ ':' :: ' ' :: (write st (depth + 1) x ++ writeMembers st depth kvs)

mutual
theorem readValue_write (st : Style) :
    ∀ (v : Datum) (depth n : Nat) (rest : List Char), v.Exact → Stops rest →
    (write st depth v).length ≤ n → readValue n (write st depth v ++ rest) = some (v, rest)
  | v, depth, 0, rest, h, hrest, hn => by
    obtain ⟨c, cs, hcs, -⟩ := write_head st depth h
    rw [hcs] at hn
    cases hn
  | .null, depth, n + 1, rest, h, hrest, hn => rfl
  | .bool true, depth, n + 1, rest, h, hrest, hn => rfl
  | .bool false, depth, n + 1, rest, h, hrest, hn => rfl
  | .int i, depth, n + 1, rest, h, hrest, hn => by
    have hnumber := readNumber_toString i hrest
    obtain ⟨c, cs, hcs, hc⟩ := toString_head i
    have hne : c ≠ '\"' ∧ c ≠ '[' ∧ c ≠ '\x7b' := by
      rcases hc with hc | ⟨rfl, -⟩
      · refine ⟨?_, ?_, ?_⟩ <;> rintro rfl <;> exact absurd hc (by decide)
      · decide
    have hword : readWord (c :: (cs ++ rest)) = none := by
      rcases hc with hc | ⟨rfl, d, ds, rfl, hd⟩
      · exact readWord_digit hc _
      · exact readWord_minus hd _
    rw [write, hcs, List.cons_append, readValue, if_neg hne.1, if_neg hne.2.1, if_neg hne.2.2,
      hword, Option.none_or]
    rw [hcs, List.cons_append] at hnumber
    exact hnumber
  | .str s, depth, n + 1, rest, h, hrest, hn => by
    rw [write, quoted, List.cons_append, List.append_assoc, readValue, if_pos rfl]
    simp only [List.singleton_append, readString_quoted]
    rfl
  | .arr [], depth, n + 1, rest, h, hrest, hn => rfl
  | .arr (x :: xs), depth, n + 1, rest, h, hrest, hn => by
    have htext : skip (st.newline (depth + 1) ++ write st (depth + 1) x ++ writeItems st depth xs ++
        rest) = itemsText st depth (x :: xs) ++ rest := by
      rw [itemsText, List.append_assoc, List.append_assoc, skip_newline, skip_write st _ h.1,
        List.append_assoc]
    have hlen : (itemsText st depth (x :: xs)).length ≤ n := by
      rw [write, List.length_cons, List.append_assoc, List.length_append] at hn
      rw [itemsText]
      omega
    have hitems := readItems_write st (x :: xs) depth n rest (List.cons_ne_nil _ _) h hlen
    rw [write, List.cons_append, readValue, if_neg (by decide), if_pos rfl, htext]
    split
    · rename_i hclose
      obtain ⟨c, cs, hcs, hc⟩ := write_head st (depth + 1) h.1
      rw [itemsText, hcs] at hclose
      exact absurd (List.cons.inj hclose).1 hc.2.1
    · rw [hitems]
      rfl
  | .obj [], depth, n + 1, rest, h, hrest, hn => rfl
  | .obj ((k, x) :: kvs), depth, n + 1, rest, h, hrest, hn => by
    have htext : skip (st.newline (depth + 1) ++ quoted st.ascii k ++ ':' :: ' ' ::
        write st (depth + 1) x ++ writeMembers st depth kvs ++ rest) =
        membersText st depth ((k, x) :: kvs) ++ rest := by
      rw [membersText, List.append_assoc, List.append_assoc, List.append_assoc, skip_newline,
        quoted, List.cons_append, skip_cons (by decide)]
      simp only [List.cons_append, List.append_assoc]
    have hlen : (membersText st depth ((k, x) :: kvs)).length ≤ n := by
      rw [write, List.length_cons] at hn
      simp only [List.length_append, List.length_cons] at hn
      rw [membersText]
      simp only [List.length_append, List.length_cons]
      omega
    have hmembers := readMembers_write st ((k, x) :: kvs) depth n rest
        (List.cons_ne_nil _ _) h.2 hlen
    rw [write, List.cons_append, readValue, if_neg (by decide), if_neg (by decide),
      if_pos rfl, htext]
    split
    · rename_i hclose
      rw [membersText, quoted] at hclose
      exact absurd (List.cons.inj hclose).1 (by decide)
    · rw [hmembers]
      simp only [Option.bind_eq_bind, Option.bind_some, asDict_of_nodup h.1, Option.pure_def]

theorem readItems_write (st : Style) :
    ∀ (xs : List Datum) (depth n : Nat) (rest : List Char), xs ≠ [] → ExactItems xs →
    (itemsText st depth xs).length ≤ n → readItems n (itemsText st depth xs ++ rest) =
      some (xs, rest)
  | [], _, _, _, h, _, _ => absurd rfl h
  | x :: xs, depth, 0, rest, _, h, hn => by
    obtain ⟨c, cs, hcs, -⟩ := write_head st (depth + 1) h.1
    rw [itemsText, hcs] at hn
    cases hn
  | [x], depth, n + 1, rest, _, h, hn => by
    have hlen : (write st (depth + 1) x).length ≤ n := by
      rw [itemsText, writeItems, List.length_append, List.length_append, List.length_singleton]
        at hn
      omega
    have hx := readValue_write st x (depth + 1) n (writeItems st depth [] ++ rest) h.1
        (stops_items st depth [] rest) hlen
    rw [itemsText, List.append_assoc, readItems, hx, writeItems, List.append_assoc]
    simp only [Option.bind_eq_bind, Option.bind_some, skip_newline]
    rfl
  | x :: y :: ys, depth, n + 1, rest, _, h, hn => by
    obtain ⟨cs, hcomma, hskip⟩ := comma_eq st (depth + 1)
    have hwrite : writeItems st depth (y :: ys) = ',' :: (cs ++ itemsText st depth (y :: ys)) := by
      rw [writeItems, hcomma, itemsText, List.append_assoc, List.cons_append]
    have hlens : (write st (depth + 1) x).length ≤ n ∧
        (itemsText st depth (y :: ys)).length ≤ n := by
      rw [itemsText, hwrite] at hn
      simp only [List.length_append, List.length_cons] at hn
      omega
    have hx := readValue_write st x (depth + 1) n (writeItems st depth (y :: ys) ++ rest) h.1
        (stops_items st depth _ rest) hlens.1
    have hys := readItems_write st (y :: ys) depth n rest (List.cons_ne_nil _ _) h.2 hlens.2
    have hstart : skip (itemsText st depth (y :: ys) ++ rest) =
        itemsText st depth (y :: ys) ++ rest := by
      rw [itemsText, List.append_assoc, skip_write st _ h.2.1]
    rw [itemsText, List.append_assoc, readItems, hx, hwrite]
    simp only [Option.bind_eq_bind, Option.bind_some, List.cons_append, List.append_assoc,
      skip_cons (show isBlank ',' = false from rfl), hskip, hstart, hys, Option.pure_def]

theorem readMembers_write (st : Style) :
    ∀ (kvs : List (String × Datum)) (depth n : Nat) (rest : List Char), kvs ≠ [] →
      ExactMembers kvs →
    (membersText st depth kvs).length ≤ n → readMembers n (membersText st depth kvs ++ rest) =
      some (kvs, rest)
  | [], _, _, _, h, _, _ => absurd rfl h
  | (k, x) :: kvs, depth, 0, rest, _, h, hn => by
    rw [membersText, quoted] at hn
    cases hn
  | [(k, x)], depth, n + 1, rest, _, h, hn => by
    have hlen : (write st (depth + 1) x).length ≤ n := by
      rw [membersText, writeMembers] at hn
      simp only [List.length_append, List.length_cons] at hn
      omega
    have hx := readValue_write st x (depth + 1) n (writeMembers st depth [] ++ rest) h.1
        (stops_members st depth [] rest) hlen
    rw [membersText, quoted, List.append_assoc, List.cons_append, readMembers, if_neg (by decide),
      List.append_assoc, List.singleton_append, readString_quoted]
    have hblank : skip (' ' :: (write st (depth + 1) x ++ (writeMembers st depth [] ++ rest))) =
        write st (depth + 1) x ++ (writeMembers st depth [] ++ rest) :=
      skip_write st (depth + 1) h.1 _
    simp only [Option.bind_eq_bind, Option.bind_some, List.cons_append, List.append_assoc,
      skip_cons (show isBlank ':' = false from rfl), hblank, hx]
    rw [writeMembers, List.append_assoc, skip_newline]
    rfl
  | (k, x) :: (k', y) :: kvs, depth, n + 1, rest, _, h, hn => by
    obtain ⟨cs, hcomma, hskip⟩ := comma_eq st (depth + 1)
    have hwrite : writeMembers st depth ((k', y) :: kvs) =
        ',' :: (cs ++ membersText st depth ((k', y) :: kvs)) := by
      rw [writeMembers, hcomma, membersText]
      simp only [List.append_assoc, List.cons_append]
    have hlens : (write st (depth + 1) x).length ≤ n ∧
        (membersText st depth ((k', y) :: kvs)).length ≤ n := by
      rw [membersText, hwrite] at hn
      simp only [List.length_append, List.length_cons] at hn
      omega
    have hx := readValue_write st x (depth + 1) n (writeMembers st depth ((k', y) :: kvs) ++ rest)
        h.1 (stops_members st depth _ rest) hlens.1
    have hkvs := readMembers_write st ((k', y) :: kvs) depth n rest
        (List.cons_ne_nil _ _) h.2 hlens.2
    have hstart : skip (membersText st depth ((k', y) :: kvs) ++ rest) =
        membersText st depth ((k', y) :: kvs) ++ rest := by
      rw [membersText, quoted]
      exact skip_cons (by decide) _
    have hblank : skip (' ' ::
        (write st (depth + 1) x ++ (writeMembers st depth ((k', y) :: kvs) ++ rest))) =
        write st (depth + 1) x ++ (writeMembers st depth ((k', y) :: kvs) ++ rest) :=
      skip_write st (depth + 1) h.1 _
    rw [membersText, quoted, List.append_assoc, List.cons_append, readMembers, if_neg (by decide),
      List.append_assoc, List.singleton_append, readString_quoted]
    simp only [Option.bind_eq_bind, Option.bind_some, List.cons_append, List.append_assoc,
      skip_cons (show isBlank ':' = false from rfl), hblank, hx]
    simp only [hwrite, List.cons_append, skip_cons (show isBlank ',' = false from rfl),
      List.append_assoc, hskip, hstart, hkvs, Option.bind_some, Option.pure_def]
end

/-- Every value reads back from its text. -/
theorem read_write (st : Style) {v : Datum} (h : v.Exact) {blanks : List Char}
    (hb : ∀ c ∈ blanks, isBlank c = true) : read (write st 0 v ++ blanks) = some v := by
  have hrest : skip blanks = [] := by
    rw [← List.append_nil blanks]
    exact List.dropWhile_append_of_pos hb
  have hstops : Stops blanks := by
    cases blanks with
    | nil => exact stops_nil
    | cons c cs =>
      have hc := hb c List.mem_cons_self
      refine stops_cons ⟨?_, ?_, ?_, ?_⟩ cs
      · simp only [isBlank, Bool.or_eq_true, decide_eq_true_eq] at hc
        rcases hc with ((rfl | rfl) | rfl) | rfl <;> rfl
      all_goals rintro rfl; exact absurd hc (by decide)
  have hlen : (write st 0 v).length ≤ (write st 0 v ++ blanks).length + 1 := by
    rw [List.length_append]
    omega
  rw [read, skip_write st 0 h, readValue_write st v 0 _ blanks h hstops hlen]
  simp only [Option.bind_eq_bind, Option.bind_some, hrest, if_true]

/-! ## ASCII -/

/-- Characters that `bytes.decode("ascii")` takes. -/
def Ascii (cs : List Char) : Prop := ∀ c ∈ cs, c.toNat < 128

theorem ascii_of_all {cs : List Char} (h : cs.all (fun c => c.toNat < 128) = true) : Ascii cs :=
  fun c hc => of_decide_eq_true (List.all_eq_true.1 h c hc)

theorem ascii_nil : Ascii [] := fun _ h => absurd h List.not_mem_nil

theorem Ascii.append {cs ds : List Char} (hc : Ascii cs) (hd : Ascii ds) : Ascii (cs ++ ds) :=
  fun c h => (List.mem_append.1 h).elim (hc c) (hd c)

theorem Ascii.cons {c : Char} {cs : List Char} (hc : c.toNat < 128) (hcs : Ascii cs) :
    Ascii (c :: cs) := by
  intro d hd
  rcases List.mem_cons.1 hd with rfl | hd
  · exact hc
  · exact hcs d hd

theorem ascii_digitChar (n : Nat) : (Nat.digitChar n).toNat < 128 := by
  have hsmall : ∀ m, m < 16 → (Nat.digitChar m).toNat < 128 := by decide
  by_cases hn : n < 16
  · exact hsmall n hn
  · have hstar : Nat.digitChar n = '*' := by
      unfold Nat.digitChar
      repeat rw [if_neg (by omega)]
    rw [hstar]
    decide

theorem ascii_hex4 (n : Nat) : Ascii (hex4 n) :=
  .cons (ascii_digitChar _)
    (.cons (ascii_digitChar _) (.cons (ascii_digitChar _) (.cons (ascii_digitChar _) ascii_nil)))

theorem ascii_shortEscapes : ∀ x ∈ shortEscapes, x.2.toNat < 128 := by decide

theorem ascii_escape (c : Char) : Ascii (escape true c) := by
  unfold escape
  cases he : shortEscapes.lookup c with
  | some e =>
    obtain ⟨l₁, l₂, hl, -⟩ := List.lookup_eq_some_iff.1 he
    exact .cons (by decide)
      (.cons (ascii_shortEscapes (c, e) (hl ▸ List.mem_append_right _ List.mem_cons_self))
      ascii_nil)
  | none =>
    by_cases hc : c.toNat < 32 ∨ true = true ∧ 127 ≤ c.toNat
    · rw [if_pos hc]
      intro d hd
      obtain ⟨u, -, hu⟩ := List.mem_flatMap.1 hd
      exact Ascii.cons (by decide) (.cons (by decide) (ascii_hex4 u)) d hu
    · rw [if_neg hc]
      rw [not_or, not_and, Nat.not_le] at hc
      exact .cons (Nat.lt_of_lt_of_le (hc.2 rfl) (by decide)) ascii_nil

theorem ascii_quoted (s : String) : Ascii (quoted true s) := by
  refine .cons (by decide) (.append (fun c hc => ?_) (.cons (by decide) ascii_nil))
  obtain ⟨d, -, hd⟩ := List.mem_flatMap.1 hc
  exact ascii_escape d c hd

theorem ascii_toString (i : Int) : Ascii (toString i).toList := by
  have hdigits : ∀ n, Ascii (Nat.toDigits 10 n) := by
    intro n c hc
    have hd := List.all_eq_true.1 (Decimal.canonical_toDigits n).1 c hc
    simp only [Char.isDigit, Bool.and_eq_true, decide_eq_true_eq] at hd
    exact Nat.lt_of_le_of_lt hd.2 (by decide)
  cases i with
  | ofNat n =>
    rw [toString_ofNat]
    exact hdigits n
  | negSucc n =>
    rw [toString_negSucc]
    exact .cons (by decide) (hdigits _)

theorem ascii_newline (indent : Option Nat) (depth : Nat) :
    Ascii (Style.newline ⟨true, indent⟩ depth) := by
  unfold Style.newline
  split
  · refine .cons (by decide) fun c hc => ?_
    rw [(List.mem_replicate.1 hc).2]
    decide
  · exact ascii_nil

theorem ascii_comma (indent : Option Nat) (depth : Nat) :
    Ascii (Style.comma ⟨true, indent⟩ depth) := by
  refine .cons (by decide) ?_
  split
  · exact .cons (by decide) ascii_nil
  · exact ascii_newline indent depth

theorem ascii_member {k xs : List Char} (hk : Ascii k) (hxs : Ascii xs) :
    Ascii (k ++ ':' :: ' ' :: xs) :=
  hk.append (.cons (by decide) (.cons (by decide) hxs))

mutual
/-- With `ensure_ascii` a text is ASCII. -/
theorem ascii_write (indent : Option Nat) :
    ∀ (v : Datum) (depth : Nat), v.Exact → Ascii (write ⟨true, indent⟩ depth v)
  | .null, _, _ => @ascii_of_all "null".toList rfl
  | .bool true, _, _ => @ascii_of_all "true".toList rfl
  | .bool false, _, _ => @ascii_of_all "false".toList rfl
  | .int i, _, _ => ascii_toString i
  | .str s, _, _ => ascii_quoted s
  | .arr [], _, _ => @ascii_of_all "[]".toList rfl
  | .arr (x :: xs), depth, h =>
    .cons (by decide) (((ascii_newline indent _).append (ascii_write indent x _ h.1)).append
      (ascii_writeItems indent xs depth h.2))
  | .obj [], _, _ => @ascii_of_all "\x7b\x7d".toList rfl
  | .obj ((k, x) :: kvs), depth, h =>
    .cons (by decide) ((ascii_member ((ascii_newline indent _).append (ascii_quoted k))
      (ascii_write indent x _ h.2.1)).append (ascii_writeMembers indent kvs depth h.2.2))

theorem ascii_writeItems (indent : Option Nat) :
    ∀ (xs : List Datum) (depth : Nat), ExactItems xs → Ascii (writeItems ⟨true, indent⟩ depth xs)
  | [], depth, _ => (ascii_newline indent depth).append (.cons (by decide) ascii_nil)
  | x :: xs, depth, h =>
    ((ascii_comma indent _).append (ascii_write indent x _ h.1)).append
      (ascii_writeItems indent xs depth h.2)

theorem ascii_writeMembers (indent : Option Nat) :
    ∀ (kvs : List (String × Datum)) (depth : Nat), ExactMembers kvs →
      Ascii (writeMembers ⟨true, indent⟩ depth kvs)
  | [], depth, _ => (ascii_newline indent depth).append (.cons (by decide) ascii_nil)
  | (k, x) :: kvs, depth, h => by
    rw [writeMembers]
    exact (ascii_member ((ascii_comma indent _).append (ascii_quoted k))
      (ascii_write indent x _ h.1)).append (ascii_writeMembers indent kvs depth h.2)
end

end JsonText
