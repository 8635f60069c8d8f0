import Mathlib.Data.Int.Log
import Mathlib.Data.Rat.Floor
import Mathlib.Tactic.Linarith
import Mathlib.Tactic.NormNum
/-!
# Binary64 numbers by their values

A finite number is the rational it stands for, so that an operation is the exact one followed by one
rounding, to nearest with ties to even. There is one zero.
-/

inductive Double where
  | finite (q : ℚ)
  | inf (negative : Bool)
  | nan
deriving DecidableEq, Repr

namespace Double

/-- The nearest integer, the even one of two. -/
def roundEven (q : ℚ) : ℤ :=
  if q - ⌊q⌋ < 1 / 2 then ⌊q⌋
  else if 1 / 2 < q - ⌊q⌋ then ⌊q⌋ + 1
  else if ⌊q⌋ % 2 = 0 then ⌊q⌋ else ⌊q⌋ + 1

/-- The distance of neighbours around `q`: 53 digits, and none below `2 ^ -1074`. -/
def unit (q : ℚ) : ℚ := 2 ^ max (Int.log 2 |q| - 52) (-1074)

/-- The value nearest to `q`, however large. -/
def nearest (q : ℚ) : ℚ := roundEven (q / unit q) * unit q

def round (q : ℚ) : Double := if |nearest q| < 2 ^ 1024 then finite (nearest q) else inf (q < 0)

/-- Conversion of an integer; `none` if it is too large. -/
def ofInt (n : ℤ) : Option Double :=
  match round n with
  | finite q => some (finite q)
  | _ => none

def mul : Double → Double → Double
  | finite a, finite b => round (a * b)
  | finite a, inf s | inf s, finite a => if a = 0 then nan else inf (s != decide (a < 0))
  | inf s, inf t => inf (s != t)
  | nan, _ | _, nan => nan

/-- The quotient by a number that is not zero. -/
def div : Double → Double → Double
  | finite a, finite b => round (a / b)
  | finite _, inf _ => finite 0
  | inf s, finite b => inf (s != decide (b < 0))
  | inf _, inf _ => nan
  | nan, _ | _, nan => nan

/-- Is it below an integer? -/
def ltInt : Double → ℤ → Bool
  | finite q, n => q < n
  | inf s, _ => s
  | nan, _ => false

/-- The integer next to it on the side of zero. -/
def toInt : Double → Option ℤ
  | finite q => some (if q < 0 then ⌈q⌉ else ⌊q⌋)
  | inf _ | nan => none

def ceil : Double → Option ℤ
  | finite q => some ⌈q⌉
  | inf _ | nan => none

/-! ## How far rounding can go -/

theorem roundEven_near (q : ℚ) : q - 1 / 2 ≤ roundEven q ∧ roundEven q ≤ q + 1 / 2 := by
  have h := Int.floor_le q
  have h' := Int.lt_floor_add_one q
  unfold roundEven
  split
  · exact ⟨by linarith, by linarith⟩
  · split
    · push_cast
      exact ⟨by linarith, by linarith⟩
    · split <;> push_cast <;> exact ⟨by linarith, by linarith⟩

theorem unit_pos (q : ℚ) : 0 < unit q := zpow_pos two_pos _

/-- Rounding moves a number by half a unit at most. -/
theorem nearest_near (q : ℚ) : q - unit q / 2 ≤ nearest q ∧ nearest q ≤ q + unit q / 2 := by
  have hu := unit_pos q
  obtain ⟨hl, hr⟩ := roundEven_near (q / unit q)
  have hq : q / unit q * unit q = q := div_mul_cancel₀ q hu.ne'
  unfold nearest
  constructor
  · calc q - unit q / 2 = (q / unit q - 1 / 2) * unit q := by rw [sub_mul, hq]; ring
      _ ≤ roundEven (q / unit q) * unit q := mul_le_mul_of_nonneg_right hl hu.le
  · calc (roundEven (q / unit q) : ℚ) * unit q ≤ (q / unit q + 1 / 2) * unit q :=
        mul_le_mul_of_nonneg_right hr hu.le
      _ = q + unit q / 2 := by rw [add_mul, hq]; ring

/-- Far from the smallest numbers a unit is small. -/
theorem unit_le {q : ℚ} (h : 1 / 2 ^ 250 ≤ q) : unit q ≤ q := by
  have hpos : 0 < q := lt_of_lt_of_le (by positivity) h
  have hlog : (-250 : ℤ) ≤ Int.log 2 q := by
    rw [← Int.zpow_le_iff_le_log Nat.one_lt_two hpos]
    rw [Nat.cast_ofNat, zpow_neg]
    exact_mod_cast (one_div _).symm.le.trans h
  unfold unit
  rw [abs_of_pos hpos, max_eq_left (by omega)]
  calc (2 : ℚ) ^ (Int.log 2 q - 52) ≤ 2 ^ Int.log 2 q := zpow_le_zpow_right₀ one_le_two (by omega)
    _ ≤ q := by exact_mod_cast Int.zpow_log_le_self Nat.one_lt_two hpos

@[simp] theorem round_zero : round 0 = finite 0 := by
  simp [round, nearest, roundEven]

/-- Positive, and at most `2 ^ k` away from one. -/
def Sized (k : ℕ) (d : Double) : Prop := ∃ q, d = finite q ∧ 1 / 2 ^ k ≤ q ∧ q ≤ 2 ^ k

/-- Rounding keeps a number within a factor of two. -/
theorem sized_round {k : ℕ} {q : ℚ} (hl : 1 / 2 ^ k ≤ q) (hr : q ≤ 2 ^ k) (hk : k ≤ 250) :
    Sized (k + 1) (round q) := by
  have hpos : 0 < q := lt_of_lt_of_le (by positivity) hl
  have hbig : 1 / 2 ^ 250 ≤ q := by
    refine le_trans ?_ hl
    exact one_div_le_one_div_of_le (by positivity) (pow_le_pow_right₀ one_le_two hk)
  have hu := unit_le hbig
  obtain ⟨hn, hn'⟩ := nearest_near q
  have hsmall : |nearest q| < 2 ^ 1024 := by
    rw [abs_of_nonneg (by linarith)]
    calc nearest q ≤ 2 * q := by linarith
      _ ≤ 2 * 2 ^ k := by linarith
      _ = 2 ^ (k + 1) := by rw [pow_succ]; ring
      _ < 2 ^ 1024 := pow_lt_pow_right₀ one_lt_two (by omega)
  refine ⟨nearest q, if_pos hsmall, ?_, ?_⟩
  · calc (1 : ℚ) / 2 ^ (k + 1) = 1 / 2 ^ k / 2 := by rw [pow_succ]; field_simp
      _ ≤ q / 2 := by linarith
      _ ≤ nearest q := by linarith
  · calc nearest q ≤ 2 * 2 ^ k := by linarith
      _ = 2 ^ (k + 1) := by rw [pow_succ]; ring

theorem ofInt_eq {n : ℤ} {q : ℚ} (h : round n = finite q) : ofInt n = some (finite q) := by
  delta ofInt
  rw [h]

theorem sized_ofInt {k : ℕ} {n : ℤ} (hl : 1 ≤ n) (hr : n ≤ 2 ^ k) (hk : k ≤ 250) :
    ∃ d, ofInt n = some d ∧ Sized (k + 1) d := by
  have hone : (1 : ℚ) / 2 ^ k ≤ n := by
    calc (1 : ℚ) / 2 ^ k ≤ 1 := (div_le_one (by positivity)).2 (one_le_pow₀ one_le_two)
      _ ≤ n := by exact_mod_cast hl
  obtain ⟨q, hq, hsize⟩ := sized_round hone (by exact_mod_cast hr) hk
  exact ⟨finite q, ofInt_eq hq, q, rfl, hsize⟩

theorem Sized.mul {k l : ℕ} {a b : Double} (ha : Sized k a) (hb : Sized l b) (hkl : k + l ≤ 250) :
    Sized (k + l + 1) (a.mul b) := by
  obtain ⟨q, rfl, hq, hq'⟩ := ha
  obtain ⟨r, rfl, hr, hr'⟩ := hb
  have hr0 : 0 ≤ r := le_trans (by positivity) hr
  have hq0 : 0 ≤ q := le_trans (by positivity) hq
  refine sized_round ?_ ?_ hkl
  · calc (1 : ℚ) / 2 ^ (k + l) = 1 / 2 ^ k * (1 / 2 ^ l) := by rw [pow_add, one_div_mul_one_div]
      _ ≤ q * r := mul_le_mul hq hr (by positivity) hq0
  · calc q * r ≤ 2 ^ k * 2 ^ l := mul_le_mul hq' hr' hr0 (by positivity)
      _ = 2 ^ (k + l) := (pow_add 2 k l).symm

theorem Sized.div {k l : ℕ} {a b : Double} (ha : Sized k a) (hb : Sized l b) (hkl : k + l ≤ 250) :
    Sized (k + l + 1) (a.div b) := by
  obtain ⟨q, rfl, hq, hq'⟩ := ha
  obtain ⟨r, rfl, hr, hr'⟩ := hb
  have hr0 : 0 < r := lt_of_lt_of_le (by positivity) hr
  refine sized_round ?_ ?_ hkl
  · rw [le_div_iff₀ hr0]
    calc 1 / 2 ^ (k + l) * r ≤ 1 / 2 ^ (k + l) * 2 ^ l :=
          mul_le_mul_of_nonneg_left hr' (by positivity)
      _ = 1 / 2 ^ k := by rw [pow_add]; field_simp
      _ ≤ q := hq
  · rw [div_le_iff₀ hr0]
    calc q ≤ 2 ^ k := hq'
      _ = 2 ^ (k + l) * (1 / 2 ^ l) := by rw [pow_add]; field_simp
      _ ≤ 2 ^ (k + l) * r := mul_le_mul_of_nonneg_left hr (by positivity)

@[simp] theorem ofInt_zero : ofInt 0 = some (finite 0) := ofInt_eq (by simp)

theorem Sized.zero_mul {k : ℕ} {b : Double} (hb : Sized k b) : (finite 0).mul b = finite 0 := by
  obtain ⟨r, rfl, -⟩ := hb
  simp [Double.mul]

theorem Sized.mul_zero {k : ℕ} {a : Double} (ha : Sized k a) : a.mul (finite 0) = finite 0 := by
  obtain ⟨q, rfl, -⟩ := ha
  simp [Double.mul]

theorem Sized.zero_div {k : ℕ} {b : Double} (hb : Sized k b) : (finite 0).div b = finite 0 := by
  obtain ⟨r, rfl, -⟩ := hb
  simp [Double.div]

theorem Sized.toInt {k : ℕ} {d : Double} (h : Sized k d) : ∃ n, d.toInt = some n := by
  obtain ⟨q, rfl, -⟩ := h
  exact ⟨_, rfl⟩

/-- Rounded up, a positive number is one at least. -/
theorem Sized.ceil {k : ℕ} {d : Double} (h : Sized k d) :
    ∃ n : ℤ, d.ceil = some n ∧ 1 ≤ n ∧ n ≤ 2 ^ k := by
  obtain ⟨q, rfl, hq, hq'⟩ := h
  refine ⟨_, rfl, Int.one_le_ceil_iff.2 (lt_of_lt_of_le (by positivity) hq), Int.ceil_le.2 ?_⟩
  exact_mod_cast hq'

end Double
