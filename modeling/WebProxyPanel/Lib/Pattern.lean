import Mathlib.Computability.Language
/-!
# Patterns in the manner of `re`

A pattern is tried at a position of a text: how much of the text is read, and what is left of it.
Groups are not kept, and of several matches only the set counts.

* `Pattern.ends` — the positions at which a match can end.
* `match_`, `fullmatch` — whether there is a match.
* `language` — what a pattern without anchors stands for. `match_anchored`: between `^` and `$` it
  may be followed by one newline; `fullmatch_iff`: with `fullmatch` it may not.
-/

open Computability

inductive Pattern (α : Type) where
  | one (p : α → Bool)
  | seq (r s : Pattern α)
  | alt (r s : Pattern α)
  /-- `r{least,most}` -/
  | rep (r : Pattern α) (least most : ℕ)
  /-- `r*` -/
  | star (r : Pattern α)
  /-- `^` -/
  | start
  /-- `$`, without `MULTILINE` -/
  | stop

namespace Pattern
variable {α : Type}

/-- `^r$` -/
def anchored (r : Pattern α) : Pattern α := seq start (seq r stop)

/-- The characters of a word, one after the other. -/
def word [DecidableEq α] : List α → Pattern α
  | [] => rep (one fun _ => false) 0 0
  | a :: w => seq (one fun b => b = a) (word w)

/-! ## Matching -/

/-- `k` matches of `f` one after the other. -/
def times (f : ℕ × List α → List (ℕ × List α)) (k : ℕ) (x : ℕ × List α) : List (ℕ × List α) :=
  (fun xs => xs.flatMap f)^[k] [x]

section Match
variable [DecidableEq α]

/-- `nl` is the newline. More than one match for each character left adds nothing to `r*`. -/
def ends (nl : α) : Pattern α → ℕ × List α → List (ℕ × List α)
  | one p, x => match x.2 with
    | a :: s => if p a then [(x.1 + 1, s)] else []
    | [] => []
  | seq r s, x => (r.ends nl x).flatMap (s.ends nl)
  | alt r s, x => r.ends nl x ++ s.ends nl x
  | rep r least most, x =>
    (List.range (most + 1 - least)).flatMap fun k => times (r.ends nl) (least + k) x
  | star r, x => (List.range (x.2.length + 1)).flatMap fun k => times (r.ends nl) k x
  | start, x => if x.1 = 0 then [x] else []
  | stop, x => if x.2 = [] ∨ x.2 = [nl] then [x] else []

/-- `re.match` -/
def match_ (nl : α) (r : Pattern α) (s : List α) : Bool := !(r.ends nl (0, s)).isEmpty

/-- `re.fullmatch` -/
def fullmatch (nl : α) (r : Pattern α) (s : List α) : Bool :=
  (r.ends nl (0, s)).any fun y => y.2.isEmpty

end Match

/-! ## Languages -/

/-- Neither `^` nor `$`. -/
def plain : Pattern α → Prop
  | one _ => True
  | seq r s | alt r s => r.plain ∧ s.plain
  | rep r _ _ | star r => r.plain
  | start | stop => False

def language : Pattern α → Language α
  | one p => {w | ∃ a, p a = true ∧ w = [a]}
  | seq r s => r.language * s.language
  | alt r s => r.language + s.language
  | rep r least most => {w | ∃ k, least ≤ k ∧ k ≤ most ∧ w ∈ r.language ^ k}
  | star r => r.language∗
  | start | stop => 1

section Language
variable {p : α → Bool} {r s : Pattern α} {w : List α} {least most : ℕ}

theorem mem_rep_language :
    w ∈ (rep r least most).language ↔ ∃ k, least ≤ k ∧ k ≤ most ∧ w ∈ r.language ^ k := Iff.rfl

/-- Repeated characters of one class. -/
theorem mem_one_pow {k : ℕ} : w ∈ (one p).language ^ k ↔ w.length = k ∧ w.all p = true := by
  induction k generalizing w with
  | zero =>
    rw [pow_zero, Language.mem_one]
    constructor
    · rintro rfl
      exact ⟨rfl, rfl⟩
    · exact fun h => List.length_eq_zero_iff.1 h.1
  | succ k ih =>
    rw [pow_succ', Language.mem_mul]
    constructor
    · rintro ⟨_, ⟨a, ha, rfl⟩, v, hv, rfl⟩
      obtain ⟨hlen, hall⟩ := ih.1 hv
      simp [ha, hlen, hall]
    · rintro ⟨hlen, hall⟩
      cases w with
      | nil => simp at hlen
      | cons a v =>
        rw [List.all_cons, Bool.and_eq_true] at hall
        exact ⟨[a], ⟨a, hall.1, rfl⟩, v, ih.2 ⟨by simpa using hlen, hall.2⟩, rfl⟩

theorem mem_rep_one :
    w ∈ (rep (one p) least most).language ↔ least ≤ w.length ∧ w.length ≤ most ∧
      w.all p = true := by
  rw [mem_rep_language]
  constructor
  · rintro ⟨k, hleast, hmost, hw⟩
    obtain ⟨rfl, hall⟩ := mem_one_pow.1 hw
    exact ⟨hleast, hmost, hall⟩
  · rintro ⟨hleast, hmost, hall⟩
    exact ⟨w.length, hleast, hmost, mem_one_pow.2 ⟨rfl, hall⟩⟩

theorem mem_star_one : w ∈ (star (one p)).language ↔ w.all p = true := by
  show w ∈ (one p).language∗ ↔ _
  rw [Language.kstar_eq_iSup_pow, Language.mem_iSup]
  constructor
  · rintro ⟨k, hw⟩
    exact (mem_one_pow.1 hw).2
  · exact fun h => ⟨w.length, mem_one_pow.2 ⟨rfl, h⟩⟩

theorem plain_word [DecidableEq α] : ∀ w : List α, (word w).plain
  | [] => trivial
  | _ :: w => ⟨trivial, plain_word w⟩

theorem mem_word_language [DecidableEq α] {v : List α} : w ∈ (word v).language ↔ w = v := by
  induction v generalizing w with
  | nil =>
    rw [word, mem_rep_one]
    constructor
    · exact fun h => List.length_eq_zero_iff.1 (Nat.le_zero.1 h.2.1)
    · rintro rfl
      simp
  | cons a v ih =>
    show w ∈ (one _).language * (word v).language ↔ _
    rw [Language.mem_mul]
    constructor
    · rintro ⟨_, ⟨b, hb, rfl⟩, u, hu, rfl⟩
      rw [ih.1 hu, of_decide_eq_true hb]
      rfl
    · rintro rfl
      exact ⟨[a], ⟨a, by simp, rfl⟩, v, ih.2 rfl, rfl⟩

end Language

/-! ## What a match reads -/

/-- From `x`, a match has read the word `w` and come to `y`. -/
def Reads (w : List α) (x y : ℕ × List α) : Prop := x.2 = w ++ y.2 ∧ y.1 = x.1 + w.length

theorem Reads.trans {v w : List α} {x y z : ℕ × List α} (h : Reads v x y) (h' : Reads w y z) :
    Reads (v ++ w) x z := by
  refine ⟨?_, ?_⟩
  · rw [h.1, h'.1, List.append_assoc]
  · rw [h'.2, h.2, List.length_append, Nat.add_assoc]

/-- A match of two words is a match of the first and then of the second. -/
theorem Reads.split {v w : List α} {x z : ℕ × List α} (h : Reads (v ++ w) x z) :
    ∃ y, Reads v x y ∧ Reads w y z := by
  refine ⟨(x.1 + v.length, w ++ z.2), ⟨?_, rfl⟩, rfl, ?_⟩
  · rw [h.1, List.append_assoc]
  · rw [h.2, List.length_append, Nat.add_assoc]

theorem mem_times {f : ℕ × List α → List (ℕ × List α)} {L : Language α}
    (hf : ∀ x y, y ∈ f x ↔ ∃ w ∈ L, Reads w x y) {k : ℕ} {x y : ℕ × List α} :
    y ∈ times f k x ↔ ∃ w ∈ L ^ k, Reads w x y := by
  induction k generalizing y with
  | zero =>
    show y ∈ [x] ↔ _
    rw [List.mem_singleton, pow_zero]
    constructor
    · rintro rfl
      exact ⟨[], Language.mem_one _ |>.2 rfl, rfl, rfl⟩
    · rintro ⟨_, rfl, hread⟩
      exact Prod.ext hread.2 hread.1.symm
  | succ k ih =>
    rw [times, Function.iterate_succ_apply', List.mem_flatMap, pow_succ]
    constructor
    · rintro ⟨z, hz, hy⟩
      obtain ⟨v, hv, hread⟩ := ih.1 hz
      obtain ⟨w, hw, hread'⟩ := (hf z y).1 hy
      exact ⟨v ++ w, Language.mem_mul.2 ⟨v, hv, w, hw, rfl⟩, hread.trans hread'⟩
    · rintro ⟨_, hvw, hread⟩
      obtain ⟨v, hv, w, hw, rfl⟩ := Language.mem_mul.1 hvw
      obtain ⟨z, hread, hread'⟩ := hread.split
      exact ⟨z, ih.2 ⟨v, hv, hread⟩, (hf z y).2 ⟨w, hw, hread'⟩⟩

/-- A word of `L∗` is one of `L` to some power not above its length. -/
theorem exists_pow_of_mem_kstar {L : Language α} {w : List α} (h : w ∈ L∗) :
    ∃ k, k ≤ w.length ∧ w ∈ L ^ k := by
  obtain ⟨ws, rfl, hws⟩ := Language.mem_kstar_iff_exists_nonempty.1 h
  refine ⟨ws.length, ?_, Language.mem_pow.2 ⟨ws, rfl, rfl, fun v hv => (hws v hv).1⟩⟩
  rw [List.length_flatten]
  clear h
  induction ws with
  | nil => exact Nat.le_refl 0
  | cons v ws ih =>
    have hpos := List.length_pos_iff.2 (hws v List.mem_cons_self).2
    have := ih fun u hu => hws u (List.mem_cons_of_mem _ hu)
    simp only [List.length_cons, List.map_cons, List.sum_cons]
    omega

section Match
variable [DecidableEq α] {nl : α} {r : Pattern α} {s : List α}

/-- A pattern without anchors reads the words of its language, wherever it stands. -/
theorem mem_ends (hr : r.plain) {x y : ℕ × List α} :
    y ∈ r.ends nl x ↔ ∃ w ∈ r.language, Reads w x y := by
  induction r generalizing x y with
  | one p =>
    obtain ⟨i, s⟩ := x
    cases s with
    | nil =>
      constructor
      · intro h
        simp [ends] at h
      · rintro ⟨_, ⟨a, -, rfl⟩, hread, -⟩
        simp at hread
    | cons a s =>
      constructor
      · intro h
        by_cases ha : p a = true
        · simp only [ends, ha, if_true, List.mem_singleton] at h
          subst h
          exact ⟨[a], ⟨a, ha, rfl⟩, rfl, rfl⟩
        · simp [ends, ha] at h
      · rintro ⟨_, ⟨b, hb, rfl⟩, hread, hlen⟩
        obtain ⟨rfl, rfl⟩ := List.cons.inj hread
        simp only [ends, hb, if_true, List.mem_singleton]
        exact Prod.ext hlen rfl
  | seq r s ihr ihs =>
    rw [ends, List.mem_flatMap]
    constructor
    · rintro ⟨z, hz, hy⟩
      obtain ⟨v, hv, hread⟩ := (ihr hr.1).1 hz
      obtain ⟨w, hw, hread'⟩ := (ihs hr.2).1 hy
      exact ⟨v ++ w, Language.mem_mul.2 ⟨v, hv, w, hw, rfl⟩, hread.trans hread'⟩
    · rintro ⟨_, hvw, hread⟩
      obtain ⟨v, hv, w, hw, rfl⟩ := Language.mem_mul.1 hvw
      obtain ⟨z, hread, hread'⟩ := hread.split
      exact ⟨z, (ihr hr.1).2 ⟨v, hv, hread⟩, (ihs hr.2).2 ⟨w, hw, hread'⟩⟩
  | alt r s ihr ihs =>
    rw [ends, List.mem_append, ihr hr.1, ihs hr.2, language]
    simp only [Language.mem_add, or_and_right, exists_or]
  | rep r least most ih =>
    rw [ends, List.mem_flatMap]
    constructor
    · rintro ⟨k, hk, hy⟩
      obtain ⟨w, hw, hread⟩ := (mem_times fun _ _ => ih hr).1 hy
      rw [List.mem_range] at hk
      exact ⟨w, ⟨least + k, by omega, by omega, hw⟩, hread⟩
    · rintro ⟨w, ⟨k, hleast, hmost, hw⟩, hread⟩
      refine ⟨k - least, List.mem_range.2 (by omega), (mem_times fun _ _ => ih hr).2 ⟨w, ?_, hread⟩⟩
      rwa [Nat.add_sub_cancel' hleast]
  | star r ih =>
    rw [ends, List.mem_flatMap]
    constructor
    · rintro ⟨k, -, hy⟩
      obtain ⟨w, hw, hread⟩ := (mem_times fun _ _ => ih hr).1 hy
      refine ⟨w, ?_, hread⟩
      show w ∈ r.language∗
      rw [Language.kstar_eq_iSup_pow]
      exact Language.mem_iSup.2 ⟨k, hw⟩
    · rintro ⟨w, hw, hread⟩
      obtain ⟨k, hk, hw⟩ := exists_pow_of_mem_kstar hw
      refine ⟨k, List.mem_range.2 ?_, (mem_times fun _ _ => ih hr).2 ⟨w, hw, hread⟩⟩
      rw [hread.1, List.length_append]
      omega
  | start => exact hr.elim
  | stop => exact hr.elim

/-- `^r$` with `re.match`: `$` also matches before a newline that ends the text. -/
theorem match_anchored (hr : r.plain) :
    r.anchored.match_ nl s = true ↔ ∃ w ∈ r.language, s = w ∨ s = w ++ [nl] := by
  rw [anchored, match_, Bool.not_eq_true', List.isEmpty_eq_false_iff_exists_mem]
  constructor
  · rintro ⟨y, hy⟩
    simp only [ends, if_true, List.flatMap_cons, List.flatMap_nil, List.append_nil,
      List.mem_flatMap] at hy
    obtain ⟨z, hz, hy⟩ := hy
    obtain ⟨w, hw, hread, -⟩ := (mem_ends hr).1 hz
    dsimp only at hread
    refine ⟨w, hw, ?_⟩
    split at hy
    · rename_i hstop
      rcases hstop with hstop | hstop
      · exact .inl (by rw [hread, hstop, List.append_nil])
      · exact .inr (by rw [hread, hstop])
    · simp at hy
  · rintro ⟨w, hw, hs⟩
    obtain ⟨rest, rfl, hrest⟩ : ∃ rest, s = w ++ rest ∧ (rest = [] ∨ rest = [nl]) := by
      rcases hs with rfl | rfl
      · exact ⟨[], by simp, .inl rfl⟩
      · exact ⟨[nl], rfl, .inr rfl⟩
    have hmem : (0 + w.length, rest) ∈ r.ends nl (0, w ++ rest) := (mem_ends hr).2 ⟨w, hw, rfl, rfl⟩
    refine ⟨(0 + w.length, rest), ?_⟩
    simp only [ends, if_true, List.flatMap_cons, List.flatMap_nil, List.append_nil,
      List.mem_flatMap]
    exact ⟨_, hmem, by rw [if_pos hrest]; exact List.mem_singleton_self _⟩

theorem fullmatch_iff (hr : r.plain) : r.fullmatch nl s = true ↔ s ∈ r.language := by
  rw [fullmatch, List.any_eq_true]
  constructor
  · rintro ⟨y, hy, hempty⟩
    obtain ⟨w, hw, hread, -⟩ := (mem_ends hr).1 hy
    dsimp only at hread
    rw [hread, List.isEmpty_iff.1 hempty, List.append_nil]
    exact hw
  · intro hs
    exact ⟨(0 + s.length, []), (mem_ends hr).2 ⟨s, hs, by simp, rfl⟩, rfl⟩

end Match

end Pattern
