import Mathlib.Data.Int.Notation
import Mathlib.Data.List.Basic
/-!
# Integers in text

What `int` of Python reads: white space at either end, a sign, and digits with single underscores
between them. Which characters are white space or digits is a parameter.

* `int` — the number that a text stands for, if it is one; `int_digits` — on plain digits it is
  `Nat.ofDigitChars`.
* `isSpace`, `decimal` — the white space and the digits of Python itself; `ofText` — `int` of a
  string, which refuses too many digits.
-/

namespace Literal

/-- The digits after those that make up `value`; `need`: a digit must follow. -/
def digits (digit : Char → Option ℕ) : Bool → ℕ → List Char → Option ℕ
  | need, value, [] => if need then none else some value
  | need, value, c :: cs => match digit c with
    | some d => digits digit false (10 * value + d) cs
    | none => if c = '_' ∧ need = false then digits digit true value cs else none

def signed (digit : Char → Option ℕ) : List Char → Option ℤ
  | '-' :: cs => (digits digit true 0 cs).map fun n => -(n : ℤ)
  | '+' :: cs => (digits digit true 0 cs).map fun n => (n : ℤ)
  | cs => (digits digit true 0 cs).map fun n => (n : ℤ)

def int (space : Char → Bool) (digit : Char → Option ℕ) (cs : List Char) : Option ℤ :=
  signed digit ((cs.dropWhile space).reverse.dropWhile space).reverse

section Digits
variable {space : Char → Bool} {digit : Char → Option ℕ}
  (hdigit : ∀ c, c.isDigit → digit c = some (c.toNat - 48))
include hdigit

theorem digits_ofDigitChars {cs : List Char} (h : cs.all Char.isDigit) (value : ℕ) :
    digits digit false value cs = some (Nat.ofDigitChars 10 cs value) := by
  induction cs generalizing value with
  | nil => rfl
  | cons c cs ih =>
    rw [List.all_cons, Bool.and_eq_true] at h
    simp only [digits, hdigit c h.1, ih h.2, Nat.ofDigitChars_cons]
    rfl

theorem signed_digits {cs : List Char} (h : cs.all Char.isDigit) (hne : cs ≠ []) :
    signed digit cs = some (Nat.ofDigitChars 10 cs 0 : ℤ) := by
  obtain ⟨c, cs, rfl⟩ := List.exists_cons_of_ne_nil hne
  have hc : c.isDigit = true := by
    rw [List.all_cons, Bool.and_eq_true] at h
    exact h.1
  have hread : digits digit true 0 (c :: cs) = digits digit false 0 (c :: cs) := by
    simp only [digits, hdigit c hc]
  have hsigned : signed digit (c :: cs) = (digits digit true 0 (c :: cs)).map fun n => (n : ℤ) := by
    unfold signed
    split
    · rename_i heq
      obtain ⟨rfl, -⟩ := List.cons.inj heq
      simp at hc
    · rename_i heq
      obtain ⟨rfl, -⟩ := List.cons.inj heq
      simp at hc
    · rfl
  rw [hsigned, hread, digits_ofDigitChars hdigit h]
  rfl

/-- Digits, and white space behind them. -/
theorem int_digits (hspace : ∀ c, c.isDigit → space c = false) {cs rest : List Char}
    (h : cs.all Char.isDigit) (hne : cs ≠ []) (hrest : ∀ c ∈ rest, space c = true) :
    int space digit (cs ++ rest) = some (Nat.ofDigitChars 10 cs 0 : ℤ) := by
  have hdrop : ∀ ds : List Char, ds.all Char.isDigit → ds ≠ [] →
      ∀ tail, (ds ++ tail).dropWhile space = ds ++ tail := by
    intro ds hds hne tail
    obtain ⟨d, ds, rfl⟩ := List.exists_cons_of_ne_nil hne
    rw [List.all_cons, Bool.and_eq_true] at hds
    rw [List.cons_append, List.dropWhile_cons_of_neg (by rw [hspace d hds.1]; decide)]
  have hskip : ∀ tail, (rest.reverse ++ tail).dropWhile space = tail.dropWhile space := by
    intro tail
    refine List.dropWhile_append_of_pos fun c hc => ?_
    exact hrest c (List.mem_reverse.1 hc)
  have hback := hdrop cs.reverse (by rw [List.all_reverse]; exact h) (by simpa using hne) []
  rw [List.append_nil] at hback
  rw [int, hdrop cs h hne, List.reverse_append, hskip, hback, List.reverse_reverse,
    signed_digits hdigit h hne]

end Digits

/-! ## The characters of Python -/

/-- The white space that `int` passes over: that of `str.isspace`, less the separators U+001C to
U+001F. -/
def isSpace (c : Char) : Bool :=
  let n := c.toNat
  (9 ≤ n && n ≤ 13) || n = 32 || n = 133 || n = 160 || n = 5760 || (8192 ≤ n && n ≤ 8202) ||
    n = 8232 || n = 8233 || n = 8239 || n = 8287 || n = 12288

/-- The digits zero of Unicode; the nine others follow each. -/
def zeros : List ℕ :=
  [0x30, 0x660, 0x6f0, 0x7c0, 0x966, 0x9e6, 0xa66, 0xae6, 0xb66, 0xbe6, 0xc66, 0xce6, 0xd66,
    0xde6, 0xe50, 0xed0,
   0xf20, 0x1040, 0x1090, 0x17e0, 0x1810, 0x1946, 0x19d0, 0x1a80, 0x1a90, 0x1b50, 0x1bb0, 0x1c40,
   0x1c50, 0xa620,
   0xa8d0, 0xa900, 0xa9d0, 0xa9f0, 0xaa50, 0xabf0, 0xff10, 0x104a0, 0x10d30, 0x11066, 0x110f0,
   0x11136, 0x111d0,
   0x112f0, 0x11450, 0x114d0, 0x11650, 0x116c0, 0x11730, 0x118e0, 0x11950, 0x11c50, 0x11d50,
   0x11da0, 0x16a60,
   0x16ac0, 0x16b50, 0x1d7ce, 0x1d7d8, 0x1d7e2, 0x1d7ec, 0x1d7f6, 0x1e140, 0x1e2f0,
   0x1e950, 0x1fbf0]

/-- The value of a decimal digit. -/
def decimal (c : Char) : Option ℕ :=
  (zeros.find? fun z => z ≤ c.toNat && c.toNat < z + 10).map (c.toNat - ·)

/-- Texts with more digits are refused (`sys.get_int_max_str_digits()`). -/
def maxDigits : ℕ := 4300

/-- `int` of a string. -/
def ofText (digit : Char → Option ℕ) (cs : List Char) : Option ℤ :=
  if maxDigits < cs.countP fun c => (digit c).isSome then none else int isSpace digit cs

theorem decimal_of_isDigit {c : Char} (h : c.isDigit) : decimal c = some (c.toNat - 48) := by
  have hrange : 48 ≤ c.toNat ∧ c.toNat < 48 + 10 :=
    (Char.isDigit_iff_toNat.1 h).imp_right Nat.lt_succ_of_le
  simp [decimal, zeros, hrange]

theorem isSpace_of_isDigit {c : Char} (h : c.isDigit) : isSpace c = false := by
  have hrange : 48 ≤ c.toNat ∧ c.toNat ≤ 57 := Char.isDigit_iff_toNat.1 h
  simp [isSpace]
  omega

/-- Not too many digits, and white space behind them. -/
theorem ofText_digits {digit : Char → Option ℕ}
    (hdigit : ∀ c, c.isDigit → digit c = some (c.toNat - 48)) {cs rest : List Char}
    (h : cs.all Char.isDigit) (hne : cs ≠ []) (hrest : ∀ c ∈ rest, isSpace c = true)
    (hlen : (cs ++ rest).length ≤ maxDigits) :
    ofText digit (cs ++ rest) = some (Nat.ofDigitChars 10 cs 0 : ℤ) := by
  have hcount : ¬ maxDigits < (cs ++ rest).countP fun c => (digit c).isSome :=
    Nat.not_lt.2 (Nat.le_trans List.countP_le_length hlen)
  rw [ofText, if_neg hcount, int_digits hdigit (fun c hc => isSpace_of_isDigit hc) h hne hrest]

end Literal
