import Mathlib.Data.List.Sort
import Mathlib.Data.List.Nodup
import Mathlib.Data.List.Forall2
import Mathlib.Data.List.Perm.Subperm
import Mathlib.Data.Int.Order.Basic
/-!
# Tables as lists of rows

A table is the list of its rows in rowid order. `UPDATE`, `DELETE`, joins, `ORDER BY` and the choice
of a new rowid are functions on such lists; a `WHERE` clause over columns that may be `NULL` is
evaluated in three-valued logic, `none` being unknown.
-/

namespace Table

variable {α β κ : Type}

/-! ## Statements -/

/-- `UPDATE .. SET f WHERE p`. -/
def update (p : α → Bool) (f : α → α) (rows : List α) : List α :=
  rows.map fun a => if p a then f a else a

/-- `DELETE .. WHERE p`. -/
def delete (p : α → Bool) (rows : List α) : List α := rows.filter fun a => !p a

/-- The rowid of a row inserted without one: the largest in use plus one, and 1 in an empty table.
-/
def nextRowid (ids : List Int) : Int :=
  match ids.max? with
  | none => 1
  | some m => m + 1

/-- `ORDER BY key`. -/
def orderBy (key : α → Int) (rows : List α) : List α := rows.insertionSort fun a b => key a ≤ key b

/-- `l JOIN r ON on`. -/
def innerJoin (l : List α) (r : List β) (on : α → β → Bool) : List (α × β) :=
  l.flatMap fun a => (r.filter (on a)).map fun b => (a, b)

/-- `l LEFT JOIN r ON on`: a row without a partner stays, with `NULL` for the partner's columns. -/
def leftJoin (l : List α) (r : List β) (on : α → β → Bool) : List (α × Option β) :=
  l.flatMap fun a => match r.filter (on a) with
    | [] => [(a, none)]
    | bs => bs.map fun b => (a, some b)

/-! ## Three-valued logic -/

/-- `a = b` where `a` may be `NULL`. -/
def eq3 [DecidableEq α] (a : Option α) (b : α) : Option Bool := a.map fun x => decide (x = b)

/-- `AND`: false wins over unknown. -/
def and3 : Option Bool → Option Bool → Option Bool
  | some false, _ | _, some false => some false
  | some true, some true => some true
  | _, _ => none

/-- `NOT`. -/
def not3 : Option Bool → Option Bool := Option.map not

/-- `WHERE` keeps the rows whose condition is true, not those where it is unknown. -/
def where3 (cond : α → Option Bool) (rows : List α) : List α :=
  rows.filter fun a => cond a = some true

/-! ## Rows after a statement -/

theorem mem_update {p : α → Bool} {f : α → α} {rows : List α} {b : α} :
    b ∈ update p f rows ↔ ∃ a ∈ rows, (if p a then f a else a) = b := by
  simp [update]

theorem mem_delete {p : α → Bool} {rows : List α} {a : α} :
    a ∈ delete p rows ↔ a ∈ rows ∧ p a = false := by
  simp [delete]

/-- An update that leaves a column alone leaves the whole column alone. -/
theorem map_update (g : α → κ) {p : α → Bool} {f : α → α} (hg : ∀ a, p a = true → g (f a) = g a)
    (rows : List α) : (update p f rows).map g = rows.map g := by
  simp only [update, List.map_map]
  refine List.map_congr_left fun a _ => ?_
  by_cases h : p a = true
  · simp [h, hg a h]
  · simp [h]

theorem filterMap_update (g : α → Option κ) {p : α → Bool} {f : α → α}
    (hg : ∀ a, p a = true → g (f a) = g a) (rows : List α) :
    (update p f rows).filterMap g = rows.filterMap g := by
  simp only [update, List.filterMap_map]
  refine List.filterMap_congr fun a _ => ?_
  by_cases h : p a = true
  · simp [h, hg a h]
  · simp [h]

@[simp] theorem length_update (p : α → Bool) (f : α → α) (rows : List α) :
    (update p f rows).length = rows.length := by
  simp [update]

theorem update_eq_self {p : α → Bool} {f : α → α} {rows : List α}
    (h : ∀ a ∈ rows, p a = true → f a = a) : update p f rows = rows := by
  rw [update, List.map_congr_left (g := id), List.map_id]
  intro a ha
  by_cases hp : p a = true
  · simp [hp, h a ha hp]
  · simp [hp]

/-- Row by row, an update relates the table before and after. -/
theorem forall₂_update {R : α → α → Prop} {p : α → Bool} {f : α → α} {rows : List α}
    (hr : ∀ a ∈ rows, R a a) (hf : ∀ a ∈ rows, p a = true → R a (f a)) :
    List.Forall₂ R rows (update p f rows) := by
  unfold update
  rw [List.forall₂_map_right_iff, List.forall₂_same]
  intro a ha
  by_cases hp : p a = true
  · simpa [hp] using hf a ha hp
  · simpa [hp] using hr a ha

/-- Two updates of the same rows are one. -/
theorem update_update {p : α → Bool} {f g : α → α} (hf : ∀ a, p a = true → p (f a) = true)
    (rows : List α) : update p g (update p f rows) = update p (fun a => g (f a)) rows := by
  simp only [update, List.map_map]
  refine List.map_congr_left fun a _ => ?_
  by_cases h : p a = true
  · simp [h, hf a h]
  · simp [h]

theorem delete_sublist (p : α → Bool) (rows : List α) : (delete p rows).Sublist rows :=
  List.filter_sublist

/-- Two rows of a table with the same value in a `UNIQUE` column are one row. -/
theorem eq_of_key {g : α → κ} {rows : List α} (h : (rows.map g).Nodup) {a b : α} (ha : a ∈ rows)
    (hb : b ∈ rows) (hab : g a = g b) : a = b :=
  List.inj_on_of_nodup_map h ha hb hab

theorem nodup_of_map {g : α → κ} {rows : List α} (h : (rows.map g).Nodup) : rows.Nodup :=
  List.Nodup.of_map g h

/-- The row with a given key after an update that keeps keys. -/
theorem eq_of_mem_update {g : α → κ} {p : α → Bool} {f : α → α} {rows : List α}
    (h : (rows.map g).Nodup) (hg : ∀ a, g (f a) = g a) {a b : α} (ha : a ∈ rows)
    (hb : b ∈ update p f rows) (hab : g b = g a) : b = if p a then f a else a := by
  obtain ⟨x, hx, rfl⟩ := mem_update.1 hb
  have hxa : x = a := by
    refine eq_of_key h hx ha ?_
    rw [← hab]
    split
    · rw [hg]
    · rfl
  rw [hxa]

/-- Filling in a `NULL` of one row adds that value to the column. -/
theorem filterMap_update_perm {g : α → Option κ} {ι : Type} [DecidableEq ι] {key : α → ι}
    {f : α → α} {v : κ} :
    ∀ {rows : List α}, (rows.map key).Nodup → ∀ {a : α}, a ∈ rows → g a = none → g (f a) = some v →
      ((update (fun x => decide (key x = key a)) f rows).filterMap g).Perm (v :: rows.filterMap g)
  | x :: rows, hn, a, ha, hga, hfa => by
    simp only [List.map_cons, List.nodup_cons] at hn
    have hcons : update (fun y => decide (key y = key a)) f (x :: rows) =
        (if key x = key a then f x else
          x) :: update (fun y => decide (key y = key a)) f rows := by simp [update]
    rw [hcons]
    rcases List.mem_cons.1 ha with rfl | har
    · -- the row itself: the others have another key
      have hrest : update (fun y => decide (key y = key a)) f rows = rows := by
        refine update_eq_self fun y hy hya => ?_
        exact absurd (List.mem_map.2 ⟨y, hy, of_decide_eq_true hya⟩) hn.1
      rw [if_pos rfl, hrest, List.filterMap_cons, hfa, List.filterMap_cons, hga]
    · have hxa : key x ≠ key a := fun he => hn.1 (he ▸ List.mem_map_of_mem har)
      have ih := filterMap_update_perm hn.2 har hga hfa
      rw [if_neg hxa]
      cases hgx : g x with
      | none => simpa [hgx] using ih
      | some w =>
        simp only [List.filterMap_cons, hgx]
        exact (ih.cons w).trans (List.Perm.swap _ _ _)

/-- Two rows with the same value in a `UNIQUE` column that may be `NULL` are one row. -/
theorem eq_of_nullKey {g : α → Option κ} {v : κ} : ∀ {rows : List α}, (rows.filterMap g).Nodup →
    ∀ {a b : α}, a ∈ rows → b ∈ rows → g a = some v → g b = some v → a = b
  | x :: rows, hn, a, b, ha, hb, hga, hgb => by
    have hrest : (rows.filterMap g).Nodup := by
      cases hx : g x with
      | none => simpa [hx] using hn
      | some w => simp only [List.filterMap_cons, hx, List.nodup_cons] at hn; exact hn.2
    -- a second row with the value of `x` would repeat it
    have hout : ∀ y ∈ rows, g x = some v → g y = some v → False := by
      intro y hy hx hgy
      simp only [List.filterMap_cons, hx, List.nodup_cons] at hn
      exact hn.1 (List.mem_filterMap.2 ⟨y, hy, hgy⟩)
    rcases List.mem_cons.1 ha with hax | har
    · rcases List.mem_cons.1 hb with hbx | hbr
      · rw [hax, hbx]
      · exact (hout b hbr (hax ▸ hga) hgb).elim
    · rcases List.mem_cons.1 hb with hbx | hbr
      · exact (hout a har (hbx ▸ hgb) hga).elim
      · exact eq_of_nullKey hrest har hbr hga hgb

/-- Setting some values to `NULL` leaves a part of the column. -/
theorem filterMap_sublist {g g' : α → Option κ} (h : ∀ a, g' a = g a ∨ g' a = none) :
    ∀ rows : List α, (rows.filterMap g').Sublist (rows.filterMap g)
  | [] => by simp
  | a :: rows => by
    have ih := filterMap_sublist h rows
    rcases h a with he | he
    · cases hg : g a with
      | none => simpa [he, hg] using ih
      | some v => simpa [he, hg] using ih
    · cases hg : g a with
      | none => simpa [he, hg] using ih
      | some v => simpa [he, hg] using ih.cons v

/-- In a table whose rows that satisfy `p` come first, those are an initial segment. -/
theorem filter_eq_take {p : α → Bool} :
    ∀ {rows : List α}, rows.Pairwise (fun a b => p b = true → p a = true) →
    rows.filter p = rows.take (rows.filter p).length
  | [], _ => rfl
  | a :: rows, h => by
    obtain ⟨ha, hr⟩ := List.pairwise_cons.1 h
    by_cases hp : p a = true
    · rw [List.filter_cons_of_pos hp, List.length_cons, List.take_succ_cons, ← filter_eq_take hr]
    · have hnil : rows.filter p = [] := List.filter_eq_nil_iff.2 fun b hb hpb => hp (ha b hb hpb)
      rw [List.filter_cons_of_neg hp, hnil]
      rfl

/-! ## New rowids -/

theorem lt_nextRowid {ids : List Int} {i : Int} (h : i ∈ ids) : i < nextRowid ids := by
  unfold nextRowid
  cases hm : ids.max? with
  | none => rw [List.max?_eq_none_iff.1 hm] at h; simp at h
  | some m =>
    have := (List.max?_eq_some_iff.1 hm).2 i h
    simp only
    omega

theorem nextRowid_notMem (ids : List Int) : nextRowid ids ∉ ids := fun h => by
  have := lt_nextRowid h; omega

theorem nodup_append_nextRowid {ids : List Int} (h : ids.Nodup) :
    (ids ++ [nextRowid ids]).Nodup := by
  rw [List.nodup_append]
  exact ⟨h, by simp, fun a ha b hb => by
    rw [List.mem_singleton.1 hb]; rintro rfl; exact nextRowid_notMem ids ha⟩

/-! ## Queries -/

theorem mem_orderBy {key : α → Int} {rows : List α} {a : α} : a ∈ orderBy key rows ↔ a ∈ rows :=
  List.mem_insertionSort _

theorem orderBy_perm (key : α → Int) (rows : List α) : (orderBy key rows).Perm rows :=
  List.perm_insertionSort _ _

theorem orderBy_pairwise (key : α → Int) (rows : List α) :
    (orderBy key rows).Pairwise fun a b => key a ≤ key b :=
  haveI : Std.Total fun a b : α => key a ≤ key b := ⟨fun a b => le_total (key a) (key b)⟩
  haveI : IsTrans α fun a b : α => key a ≤ key b := ⟨fun _ _ _ => le_trans⟩
  List.pairwise_insertionSort _ rows

theorem mem_innerJoin {l : List α} {r : List β} {on : α → β → Bool} {x : α × β} :
    x ∈ innerJoin l r on ↔ x.1 ∈ l ∧ x.2 ∈ r ∧ on x.1 x.2 = true := by
  obtain ⟨a, b⟩ := x
  simp only [innerJoin, List.mem_flatMap, List.mem_map, List.mem_filter, Prod.mk.injEq]
  constructor
  · rintro ⟨a', ha, b', ⟨hb, hon⟩, rfl, rfl⟩; exact ⟨ha, hb, hon⟩
  · rintro ⟨ha, hb, hon⟩; exact ⟨a, ha, b, ⟨hb, hon⟩, rfl, rfl⟩

/-- In a join along a foreign key each row keeps its place, next to its one partner. -/
theorem innerJoin_eq_map {l : List α} {r : List β} {on : α → β → Bool} {g : α → β}
    (h : ∀ a ∈ l, r.filter (on a) = [g a]) : innerJoin l r on = l.map fun a => (a, g a) := by
  induction l with
  | nil => rfl
  | cons a l ih =>
    have ih := ih fun b hb => h b (by simp [hb])
    simp only [innerJoin, List.flatMap_cons, List.map_cons] at ih ⊢
    rw [h a (by simp), ih]
    rfl

/-- In a left join along a `UNIQUE` column each row keeps its place, next to its partner or `NULL`.
-/
theorem leftJoin_eq_map {l : List α} {r : List β} {on : α → β → Bool}
    (h : ∀ a ∈ l, (r.filter (on a)).length ≤ 1) :
    leftJoin l r on = l.map fun a => (a, (r.filter (on a)).head?) := by
  induction l with
  | nil => rfl
  | cons a l ih =>
    have ih := ih fun b hb => h b (by simp [hb])
    have ha := h a (by simp)
    simp only [leftJoin, List.flatMap_cons, List.map_cons] at ih ⊢
    rw [ih]
    cases hf : r.filter (on a) with
    | nil => rfl
    | cons b bs =>
      rw [hf] at ha
      have : bs = [] := by cases bs with
        | nil => rfl
        | cons c cs => simp at ha
      subst this
      rfl

theorem filter_key_length [DecidableEq κ] {g : β → κ} {r : List β} (h : (r.map g).Nodup) (k : κ) :
    (r.filter fun b => decide (g b = k)).length ≤ 1 := by
  have hc : (r.map g).count k ≤ 1 := List.nodup_iff_count_le_one.1 h k
  rw [← List.countP_eq_length_filter]
  have : (r.map g).count k = r.countP fun b => decide (g b = k) := by
    rw [List.count_eq_countP, List.countP_map]
    rfl
  omega

theorem filter_key_eq [DecidableEq κ] {g : β → κ} {r : List β} (h : (r.map g).Nodup) {b : β}
    (hb : b ∈ r) : (r.filter fun x => decide (g x = g b)) = [b] := by
  have hl := filter_key_length h (g b)
  have hm : b ∈ r.filter fun x => decide (g x = g b) := by simp [hb]
  match hf : r.filter fun x => decide (g x = g b) with
  | [] => rw [hf] at hm; simp at hm
  | [c] => rw [hf] at hm; simp at hm; rw [hm]
  | c :: d :: cs => rw [hf] at hl; simp at hl

theorem mem_where3 {cond : α → Option Bool} {rows : List α} {a : α} :
    a ∈ where3 cond rows ↔ a ∈ rows ∧ cond a = some true := by
  simp [where3]

@[simp] theorem and3_eq_true {a b : Option Bool} :
    and3 a b = some true ↔ a = some true ∧ b = some true := by
  rcases a with _ | (_ | _) <;> rcases b with _ | (_ | _) <;> simp [and3]

@[simp] theorem and3_eq_false {a b : Option Bool} :
    and3 a b = some false ↔ a = some false ∨ b = some false := by
  rcases a with _ | (_ | _) <;> rcases b with _ | (_ | _) <;> simp [and3]

@[simp] theorem not3_eq_true {a : Option Bool} : not3 a = some true ↔ a = some false := by
  rcases a with _ | (_ | _) <;> simp [not3]

@[simp] theorem eq3_some_eq_true [DecidableEq α] {a b : α} : eq3 (some a) b = some true ↔ a = b :=
  by simp [eq3]
@[simp] theorem eq3_some_eq_false [DecidableEq α] {a b : α} : eq3 (some a) b = some false ↔ a ≠ b :=
  by simp [eq3]
@[simp] theorem eq3_none [DecidableEq α] {b : α} : eq3 none b = none := rfl

/-! ## Tables of keys and values -/

section
variable [DecidableEq κ]

theorem lookup_cons_if (key k : κ) (v : β) (rows : List (κ × β)) :
    ((k, v) :: rows).lookup key = if key = k then some v else rows.lookup key := by
  by_cases h : key = k
  · simp [h]
  · have hb : (key == k) = false := by simp [h]
    simp [List.lookup_cons, hb, h]

theorem lookup_update (key other : κ) (value : β) (rows : List (κ × β)) :
    (update (fun kv => decide (kv.1 = key)) (fun _ => (key, value)) rows).lookup other =
      if other = key then (rows.lookup key).map fun _ => value else rows.lookup other := by
  induction rows with
  | nil => simp [update]
  | cons kv rows ih =>
    obtain ⟨k, v⟩ := kv
    have hcons : update (fun kv => decide (kv.1 = key)) (fun _ => (key, value)) ((k, v) :: rows) =
        (if k = key then (key, value) else (k, v)) ::
          update (fun kv => decide (kv.1 = key)) (fun _ => (key, value)) rows := by
      simp [update]
    rw [hcons, lookup_cons_if, lookup_cons_if]
    by_cases hk : k = key
    · rw [if_pos hk, lookup_cons_if, ih, if_pos hk.symm, hk]
      by_cases ho : other = key <;> simp [ho]
    · rw [if_neg hk, lookup_cons_if, ih, if_neg (Ne.symm hk)]
      by_cases ho : other = key
      · rw [if_neg (by rw [ho]; exact Ne.symm hk), if_pos ho, if_pos ho]
      · simp [ho]

/-- `INSERT .. ON CONFLICT(key) DO UPDATE`, or an assignment to a key of a dict. -/
theorem lookup_upsert (key other : κ) (value : β) (rows : List (κ × β)) :
    (if rows.any (fun kv => decide (kv.1 = key)) then
      update (fun kv => decide (kv.1 = key)) (fun _ => (key, value)) rows
      else rows ++ [(key, value)]).lookup other = if other = key then some value else
        rows.lookup other := by
  split
  · rename_i h
    obtain ⟨kv, hkv, hkey⟩ := List.any_eq_true.1 h
    have hsome : (rows.lookup key).isSome := by
      rw [List.lookup_isSome_iff]
      exact ⟨kv, hkv, beq_iff_eq.2 (of_decide_eq_true hkey).symm⟩
    obtain ⟨v, hv⟩ := Option.isSome_iff_exists.1 hsome
    rw [lookup_update, hv]
    rfl
  · rename_i h
    have hnone : rows.lookup key = none := by
      rw [List.lookup_eq_none_iff]
      intro kv hkv
      simp only [List.any_eq_true, not_exists, not_and, decide_eq_true_eq] at h
      exact bne_iff_ne.2 (Ne.symm (h kv hkv))
    rw [List.lookup_append, lookup_cons_if, List.lookup_nil]
    by_cases ho : other = key
    · rw [if_pos ho, if_pos ho, ho, hnone, Option.none_or]
    · rw [if_neg ho, if_neg ho, Option.or_none]

theorem find?_map_snd (key : κ) (rows : List (κ × β)) :
    (rows.find? fun kv => decide (kv.1 = key)).map (·.2) = rows.lookup key := by
  induction rows with
  | nil => rfl
  | cons kv rows ih =>
    obtain ⟨k, v⟩ := kv
    rw [lookup_cons_if, List.find?_cons]
    by_cases h : k = key
    · simp [h]
    · rw [decide_eq_false h, ih, if_neg (Ne.symm h)]

theorem mem_iff_lookup {rows : List (κ × β)} (h : (rows.map Prod.fst).Nodup) {key : κ} {value : β} :
    (key, value) ∈ rows ↔ rows.lookup key = some value := by
  induction rows with
  | nil => simp
  | cons kv rows ih =>
    obtain ⟨k, v⟩ := kv
    rw [List.map_cons, List.nodup_cons] at h
    rw [lookup_cons_if, List.mem_cons, Prod.mk.injEq]
    by_cases hk : key = k
    · subst hk
      have hnot : (key, value) ∉ rows := fun hm => h.1 (List.mem_map.2 ⟨_, hm, rfl⟩)
      simp [hnot, eq_comm]
    · simp [hk, ih h.2]

theorem nodup_upsert (key : κ) (value : β) {rows : List (κ × β)} (h : (rows.map Prod.fst).Nodup) :
    ((if rows.any (fun kv => decide (kv.1 = key)) then
      update (fun kv => decide (kv.1 = key)) (fun _ => (key, value)) rows
      else rows ++ [(key, value)]).map Prod.fst).Nodup := by
  by_cases hany : rows.any (fun kv => decide (kv.1 = key))
  · rw [if_pos hany, update, List.map_map]
    have hkeys : rows.map (Prod.fst ∘ fun r => if decide (r.1 = key) then (key, value) else
        r) = rows.map Prod.fst := by
      refine List.map_congr_left fun kv _ => ?_
      by_cases hk : kv.1 = key <;> simp [hk]
    rw [hkeys]
    exact h
  · rw [if_neg hany, List.map_append, List.nodup_append]
    refine ⟨h, List.nodup_singleton _, fun a ha b hb => ?_⟩
    obtain ⟨kv, hkv, rfl⟩ := List.mem_map.1 ha
    rw [List.mem_singleton.1 hb]
    simp only [List.any_eq_true, not_exists, not_and, decide_eq_true_eq] at hany
    exact hany kv hkv

end

/-! ## Rows of which only a part is seen

A function on rows commutes with what reads only the part that it keeps. -/

section Map
variable {α' β' : Type} (g : α → α')

theorem orderBy_map (key : α' → Int) (rows : List α) :
    orderBy key (rows.map g) = (orderBy (fun a => key (g a)) rows).map g :=
  (List.map_insertionSort (fun a b => key (g a) ≤ key (g b)) (fun a b => key a ≤ key b) g rows fun _
    _ _ _ => Iff.rfl).symm

end Map

end Table
