import Mathlib.Algebra.Group.Nat.Defs
import Mathlib.Data.List.Induction
/-!
# Decimal numbers

Reading digits and writing a number are inverse to one another on the canonical numbers: those
without a leading zero.
-/

namespace Decimal

theorem exists_digitChar {c : Char} (h : c.isDigit) : ∃ d < 10, c = Nat.digitChar d := by
  have h' : 48 ≤ c.toNat ∧ c.toNat ≤ 57 := by
    simpa [Char.isDigit, UInt32.le_iff_toNat_le] using h
  refine ⟨c.toNat - 48, by omega, Char.toNat_inj.1 ?_⟩
  rw [Nat.toNat_digitChar_of_lt_ten (by omega)]
  omega

theorem ofDigitChars_concat {cs : List Char} {d : ℕ} (hd : d < 10) :
    Nat.ofDigitChars 10 (cs ++ [d.digitChar]) 0 = 10 * Nat.ofDigitChars 10 cs 0 + d := by
  rw [Nat.ofDigitChars_append, Nat.ofDigitChars_cons_digitChar_of_lt_ten hd, Nat.ofDigitChars_nil]

/-- The canonical digits: one alone, or any number of them that do not start with zero. -/
def Canonical (cs : List Char) : Prop :=
  cs.all Char.isDigit ∧ cs ≠ [] ∧ (cs.head? = some '0' → cs = ['0'])

/-- Writing a canonical number out again gives its digits. -/
theorem toDigits_ofDigitChars {cs : List Char} (h : Canonical cs) :
    Nat.toDigits 10 (Nat.ofDigitChars 10 cs 0) = cs := by
  induction cs using List.reverseRecOn with
  | nil => exact absurd rfl h.2.1
  | append_singleton cs c ih =>
    obtain ⟨hdigits, -, hzero⟩ := h
    simp only [List.all_append, List.all_cons, List.all_nil, Bool.and_true, Bool.and_eq_true]
      at hdigits
    obtain ⟨d, hd, rfl⟩ := exists_digitChar hdigits.2
    rw [ofDigitChars_concat hd]
    by_cases hcs : cs = []
    · subst hcs
      rw [Nat.ofDigitChars_nil, Nat.mul_zero, Nat.zero_add, Nat.toDigits_of_lt_base hd]
      rfl
    · have hhead : cs.head? ≠ some '0' := by
        intro h0
        have hlen := congrArg List.length (hzero (by rw [List.head?_append, h0, Option.some_or]))
        have := List.length_pos_iff.2 hcs
        rw [List.length_append, List.length_singleton, List.length_singleton] at hlen
        omega
      have hcs' := ih ⟨hdigits.1, hcs, fun h0 => absurd h0 hhead⟩
      have hpos : 0 < Nat.ofDigitChars 10 cs 0 := by
        apply Nat.pos_of_ne_zero
        intro h0
        rw [h0, Nat.toDigits_zero] at hcs'
        exact hhead (by rw [← hcs']; rfl)
      rw [← Nat.toDigits_append_toDigits (by decide) hpos hd, hcs', Nat.toDigits_of_lt_base hd]

theorem canonical_toDigits (n : ℕ) : Canonical (Nat.toDigits 10 n) := by
  refine ⟨?_, Nat.toDigits_ne_nil, ?_⟩
  · rw [List.all_eq_true]
    exact fun c hc => Nat.isDigit_of_mem_toDigits (by decide) (by decide) hc
  · induction n using Nat.strongRecOn with
    | ind n ih =>
      rw [Nat.toDigits_eq_if (by decide)]
      split
      · simp
      · rename_i hn
        intro h0
        obtain ⟨c, cs, hcs⟩ :=
          List.exists_cons_of_ne_nil (Nat.toDigits_ne_nil (b := 10) (n := n / 10))
        have hhead : (Nat.toDigits 10 (n / 10)).head? = some '0' := by
          rw [hcs] at h0 ⊢
          exact h0
        have hval := Nat.ofDigitChars_toDigits (b := 10) (n := n / 10) (by decide) (by decide)
        rw [ih (n / 10) (by omega) hhead] at hval
        have : n / 10 = 0 := hval.symm
        omega

theorem ofDigitChars_lt {cs : List Char} (h : cs.all Char.isDigit) :
    Nat.ofDigitChars 10 cs 0 < 10 ^ cs.length := by
  induction cs using List.reverseRecOn with
  | nil => simp
  | append_singleton cs c ih =>
    simp only [List.all_append, List.all_cons, List.all_nil, Bool.and_true, Bool.and_eq_true] at h
    obtain ⟨d, hd, rfl⟩ := exists_digitChar h.2
    have := ih h.1
    rw [ofDigitChars_concat hd, List.length_append, List.length_singleton, Nat.pow_succ]
    omega

/-- A number that needs all its digits has no leading zero. -/
theorem canonical_of_le {cs : List Char} {k : ℕ} (h : cs.all Char.isDigit)
    (hlen : cs.length = k + 1) (hval : 10 ^ k ≤ Nat.ofDigitChars 10 cs 0) : Canonical cs := by
  refine ⟨h, List.ne_nil_of_length_eq_add_one hlen, fun h0 => ?_⟩
  obtain ⟨cs', rfl⟩ : ∃ cs', cs = '0' :: cs' := by
    cases cs with
    | nil => simp at h0
    | cons c cs' => exact ⟨cs', by rw [Option.some.inj h0]⟩
  have hlt : Nat.ofDigitChars 10 cs' 0 < 10 ^ cs'.length := ofDigitChars_lt (by
    rw [List.all_cons, Bool.and_eq_true] at h
    exact h.2)
  rw [List.length_cons, Nat.add_right_cancel_iff] at hlen
  rw [hlen] at hlt
  rw [Nat.ofDigitChars_cons] at hval
  exact absurd hlt (Nat.not_lt.2 hval)

end Decimal
