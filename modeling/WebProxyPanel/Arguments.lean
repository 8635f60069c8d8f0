import WebProxyPanel.Lib.Decimal
import WebProxyPanel.Ctl
import WebProxyPanel.Invariant
/-!
# What `wppctl` accepts as a port and as a shard

A number in decimal without a leading zero, in range (`Rendering`); and, since `$` also matches
before a newline at the end, the same with one newline behind it (`NewlineBehind`), which the usage
text does not mean.
-/

namespace WebProxyPanel
namespace Ctl

/-- `s` is just the decimal rendering of the number, which is in the range. -/
def Rendering (low high : ℤ) (s : String) (n : ℤ) : Prop := low ≤ n ∧ n ≤ high ∧ s = toString n

/-- The rendering of a number in the range, and a newline. -/
def NewlineBehind (low high : ℤ) (s : String) : Prop :=
  ∃ n : ℤ, low ≤ n ∧ n ≤ high ∧ s = toString n ++ "\n"

/-- What a parser with such a pattern takes for a number of the range. -/
def Accepted (low high : ℤ) (s : String) : Prop :=
  (∃ n, Rendering low high s n) ∨ NewlineBehind low high s

/-- The number `n`, as far as `$` looks. -/
def UpToNewline (s : String) (n : ℕ) : Prop := s = toString n ∨ s = toString n ++ "\n"

theorem getLast?_ne_newline {digits : List Char} (h : digits.all Char.isDigit) :
    digits.getLast? ≠ some '\n' := by
  intro hl
  have := List.all_eq_true.1 h _ (List.mem_of_getLast? hl)
  revert this
  decide

theorem chomp_eq_iff {cs w : List Char} (h : w.getLast? ≠ some '\n') :
    chomp cs = w ↔ cs = w ∨ cs = w ++ ['\n'] := by
  constructor
  · intro hc
    unfold chomp at hc
    split at hc
    · rename_i hl
      refine .inr ?_
      rw [← hc, List.dropLast_append_getLast? _ hl]
    · exact .inl hc
  · rintro (rfl | rfl)
    · exact if_neg h
    · unfold chomp
      rw [if_pos (by simp), List.dropLast_concat]

theorem chomp_eq_digits {cs digits : List Char} (h : digits.all Char.isDigit) :
    chomp cs = digits ↔ cs = digits ∨ cs = digits ++ ['\n'] :=
  chomp_eq_iff (getLast?_ne_newline h)

/-- The canonical digits of a string are those of a number that it writes. -/
theorem chomp_eq_toDigits {s : String} {n : ℕ} :
    chomp s.toList = Nat.toDigits 10 n ↔ UpToNewline s n := by
  rw [chomp_eq_digits (Decimal.canonical_toDigits n).1, UpToNewline,
    Nat.toString_eq_ofList_toDigits]
  refine or_congr ?_ ?_
  · rw [← String.toList_inj, String.toList_ofList]
  · rw [← String.toList_inj, String.toList_append, String.toList_ofList]
    rfl

theorem decimal_toDigits (n : ℕ) : decimal (Nat.toDigits 10 n) = n :=
  congrArg Nat.cast (Nat.ofDigitChars_toDigits (by decide) (by decide))

theorem length_toDigits_eq_five {n : ℕ} (h : 20000 ≤ n) (h' : n ≤ 29999) :
    (Nat.toDigits 10 n).length = 5 := by
  have hle := (Nat.length_toDigits_le_iff (b := 10) (n := n) (k := 5) (by decide) (by decide)).2
      (by omega)
  have hgt := mt (Nat.length_toDigits_le_iff (b := 10) (n := n) (k := 4) (by decide) (by decide)).1
      (by omega)
  omega

theorem parsePort_eq_ok {s : String} {p : ℤ} :
    parsePort s = .ok p ↔ ∃ n : ℕ, p = n ∧ slotPortBase ≤ p ∧ p ≤ slotPortLast ∧
      UpToNewline s n := by
  unfold parsePort
  constructor
  · intro h
    simp only at h
    split at h
    · simp at h
    · rename_i hre
      split at h
      · simp at h
      · rename_i hrange
        rw [not_not] at hre hrange
        obtain rfl := Except.ok.inj h
        have hcanon := Decimal.canonical_of_le (k := 4) hre.2 hre.1 (by
          have := hrange.1
          unfold slotPortBase decimal at this
          omega)
        exact ⟨_, rfl, hrange.1, hrange.2,
          chomp_eq_toDigits.1 (Decimal.toDigits_ofDigitChars hcanon).symm⟩
  · rintro ⟨n, rfl, hlo, hhi, hs⟩
    have hdigits := chomp_eq_toDigits.2 hs
    have hlen := length_toDigits_eq_five (n := n) (by unfold slotPortBase at hlo; omega)
      (by unfold slotPortLast at hhi; omega)
    simp only [hdigits, decimal_toDigits]
    rw [if_neg (by simpa [hlen] using (Decimal.canonical_toDigits n).1),
      if_neg (by simpa using ⟨hlo, hhi⟩)]

theorem isShardNumber_iff {digits : List Char} :
    isShardNumber digits ↔ Decimal.Canonical digits ∧ digits.length ≤ 3 := by
  unfold isShardNumber Decimal.Canonical
  cases digits with
  | nil => simp
  | cons c cs =>
    by_cases hc : c = '0'
    · subst hc
      simp only [List.head?_cons, List.cons.injEq, true_and, Bool.or_eq_true, decide_eq_true_eq]
      constructor
      · rintro (rfl | h)
        · simp
        · simp at h
      · exact fun h => .inl (h.1.2.2 trivial)
    · simp [hc, and_assoc]

theorem parseShard_eq_ok {s : String} {k : ℤ} :
    parseShard s = .ok k ↔ ∃ n : ℕ, k = n ∧ k < maxShards ∧ UpToNewline s n := by
  unfold parseShard
  constructor
  · intro h
    simp only at h
    split at h
    · simp at h
    · rename_i hre
      rw [not_or, not_not] at hre
      obtain rfl := Except.ok.inj h
      have hcanon := (isShardNumber_iff.1 hre.1).1
      exact ⟨_, rfl, not_le.1 hre.2,
        chomp_eq_toDigits.1 (Decimal.toDigits_ofDigitChars hcanon).symm⟩
  · rintro ⟨n, rfl, hlt, hs⟩
    have hdigits := chomp_eq_toDigits.2 hs
    have hlen := (Nat.length_toDigits_le_iff (b := 10) (n := n) (k := 3) (by decide) (by decide)).2
        (by
      have : (n : ℤ) < 625 := hlt
      omega)
    simp only [hdigits, decimal_toDigits]
    rw [if_neg]
    rw [not_or, not_not, not_le]
    exact ⟨isShardNumber_iff.2 ⟨Decimal.canonical_toDigits n, hlen⟩, hlt⟩

theorem parsePort_reads {s : String} {n : ℤ} :
    parsePort s = .ok n ↔ 20000 ≤ n ∧ n ≤ 29999 ∧ (s = toString n ∨ s = toString n ++ "\n") := by
  rw [parsePort_eq_ok]
  constructor
  · rintro ⟨k, rfl, hlow, hhigh, hs⟩
    exact ⟨hlow, hhigh, hs⟩
  · rintro ⟨hlow, hhigh, hs⟩
    obtain ⟨k, rfl⟩ := Int.eq_ofNat_of_zero_le (show 0 ≤ n by omega)
    exact ⟨k, rfl, hlow, hhigh, hs⟩

theorem parseShard_reads {s : String} {n : ℤ} :
    parseShard s = .ok n ↔ 0 ≤ n ∧ n ≤ 624 ∧ (s = toString n ∨ s = toString n ++ "\n") := by
  have hmax : maxShards = 625 := rfl
  rw [parseShard_eq_ok, hmax]
  constructor
  · rintro ⟨k, rfl, hhigh, hs⟩
    exact ⟨by omega, by omega, hs⟩
  · rintro ⟨hlow, hhigh, hs⟩
    obtain ⟨k, rfl⟩ := Int.eq_ofNat_of_zero_le hlow
    exact ⟨k, rfl, by omega, hs⟩

theorem accepted_iff {low high : ℤ} {s : String} :
    Accepted low high s ↔ ∃ n, low ≤ n ∧ n ≤ high ∧ (s = toString n ∨ s = toString n ++ "\n") := by
  constructor
  · rintro (⟨n, hlow, hhigh, hs⟩ | ⟨n, hlow, hhigh, hs⟩)
    · exact ⟨n, hlow, hhigh, .inl hs⟩
    · exact ⟨n, hlow, hhigh, .inr hs⟩
  · rintro ⟨n, hlow, hhigh, hs | hs⟩
    · exact .inl ⟨n, hlow, hhigh, hs⟩
    · exact .inr ⟨n, hlow, hhigh, hs⟩

/-! ## Errors -/

/-- Every way in which an argument is refused is a `CtlError`. -/
theorem parsePort_error {s : String} {e : Exn} (h : parsePort s = .error e) :
    ∃ msg, e = .ctl msg := by
  unfold parsePort at h
  simp only at h
  split at h
  · exact ⟨_, (Except.error.inj h).symm⟩
  · split at h
    · exact ⟨_, (Except.error.inj h).symm⟩
    · simp at h

theorem parseShard_error {s : String} {e : Exn} (h : parseShard s = .error e) :
    ∃ msg, e = .ctl msg := by
  unfold parseShard at h
  simp only at h
  split at h
  · exact ⟨_, (Except.error.inj h).symm⟩
  · simp at h

/-- `mapM` returns what each of the calls returned. -/
theorem mapM_eq_ok {α β ε : Type} {f : α → Except ε β} {xs : List α} {ys : List β} :
    xs.mapM f = .ok ys ↔ List.Forall₂ (fun x y => f x = .ok y) xs ys := by
  induction xs generalizing ys with
  | nil =>
    rw [List.mapM_nil, List.forall₂_nil_left_iff]
    exact ⟨fun h => (Except.ok.inj h).symm, fun h => congrArg _ h.symm⟩
  | cons x xs ih =>
    rw [List.mapM_cons, List.forall₂_cons_left_iff]
    constructor
    · intro h
      cases hx : f x with
      | error e => simp [hx, bind, Except.bind] at h
      | ok y =>
        cases hxs : xs.mapM f with
        | error e => simp [hx, hxs, bind, Except.bind] at h
        | ok zs =>
          simp only [hx, hxs, bind, Except.bind, pure, Except.pure, Except.ok.injEq] at h
          exact ⟨y, zs, rfl, ih.1 hxs, h.symm⟩
    · rintro ⟨y, zs, hx, hxs, rfl⟩
      simp [hx, ih.2 hxs, bind, Except.bind, pure, Except.pure]

theorem forall₂_mem_left {α β : Type} {R : α → β → Prop} {xs : List α} {ys : List β}
    (h : List.Forall₂ R xs ys) : ∀ x ∈ xs, ∃ y ∈ ys, R x y := by
  induction h with
  | nil => simp
  | cons hxy _ ih =>
    rintro x (_ | ⟨_, hx⟩)
    · exact ⟨_, List.mem_cons_self, hxy⟩
    · obtain ⟨y, hy, hr⟩ := ih x hx
      exact ⟨y, List.mem_cons_of_mem _ hy, hr⟩

theorem forall₂_mem_right {α β : Type} {R : α → β → Prop} {xs : List α} {ys : List β}
    (h : List.Forall₂ R xs ys) :
    ∀ y ∈ ys, ∃ x ∈ xs, R x y := forall₂_mem_left h.flip

/-- `mapM` raises what one of the calls raised. -/
theorem mapM_eq_error {α β ε : Type} {f : α → Except ε β} {xs : List α} {e : ε}
    (h : xs.mapM f = .error e) : ∃ x ∈ xs, f x = .error e := by
  induction xs with
  | nil => simp [pure, Except.pure] at h
  | cons x xs ih =>
    rw [List.mapM_cons] at h
    cases hx : f x with
    | error e' =>
      simp only [hx, bind, Except.bind, Except.error.injEq] at h
      exact ⟨x, List.mem_cons_self, by rw [hx, h]⟩
    | ok y =>
      cases hxs : xs.mapM f with
      | error e' =>
        simp only [hx, hxs, bind, Except.bind, Except.error.injEq] at h
        obtain ⟨z, hz, hze⟩ := ih (by rw [hxs, h])
        exact ⟨z, List.mem_cons_of_mem _ hz, hze⟩
      | ok zs => simp [hx, hxs, bind, Except.bind, pure, Except.pure] at h

theorem parsePorts_error {values : List String} {e : Exn} (h : parsePorts values = .error e) :
    ∃ msg, e = .ctl msg := by
  unfold parsePorts at h
  split at h
  · exact ⟨_, (Except.error.inj h).symm⟩
  · cases hm : values.mapM parsePort with
    | ok ports => simp [hm, Except.map] at h
    | error e' =>
      simp only [hm, Except.map, Except.error.injEq] at h
      obtain ⟨v, -, hv⟩ := mapM_eq_error hm
      exact h ▸ parsePort_error hv

theorem sortedSet_pairwise (ports : List ℤ) : (sortedSet ports).Pairwise (· < ·) := by
  have hle : (sortedSet ports).Pairwise (· ≤ ·) := Table.orderBy_pairwise id _
  have hne : (sortedSet ports).Nodup :=
    (Table.orderBy_perm id _).nodup_iff.2 (List.nodup_dedup ports)
  exact (hle.and hne).imp fun h => lt_of_le_of_ne h.1 h.2

/-- A nonempty, strictly increasing list of slot ports. -/
def PortList (ports : List ℤ) : Prop :=
  ports ≠ [] ∧ ports.Pairwise (· < ·) ∧ ∀ p ∈ ports, slotPortBase ≤ p ∧ p ≤ slotPortLast

theorem parsePorts_ok {values : List String} {ports : List ℤ} (h : parsePorts values = .ok ports) :
    PortList ports ∧ values ≠ [] ∧ ∀ v ∈ values, Accepted 20000 29999 v := by
  unfold parsePorts at h
  split at h
  · simp at h
  · rename_i hne
    cases hm : values.mapM parsePort with
    | error e => simp [hm, Except.map] at h
    | ok parsed =>
      simp only [hm, Except.map, Except.ok.injEq] at h
      subst h
      have hall := mapM_eq_ok.1 hm
      refine ⟨⟨?_, sortedSet_pairwise _, ?_⟩, hne, ?_⟩
      · rw [Ne, sortedSet_eq_nil]
        rintro rfl
        exact hne (List.forall₂_nil_right_iff.1 hall)
      · intro p hp
        obtain ⟨v, -, hv⟩ := forall₂_mem_right hall p (mem_sortedSet.1 hp)
        obtain ⟨n, -, hlo, hhi, -⟩ := parsePort_eq_ok.1 hv
        exact ⟨hlo, hhi⟩
      · intro v hv
        obtain ⟨p, -, hp⟩ := forall₂_mem_left hall v hv
        exact accepted_iff.2 ⟨p, parsePort_reads.1 hp⟩

end Ctl
end WebProxyPanel
