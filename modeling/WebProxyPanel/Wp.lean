import WebProxyPanel.Pool
/-!
# Weakest preconditions of statements

`m.wp D Q db`: run on `db`, with random values that satisfy `D`, the statements `m` never violate a
constraint, and when they return `Q` holds of the result and the new database. One rule a construct.
-/

namespace WebProxyPanel
namespace Sql

variable {α β : Type} {D : String → Prop}

def wp (D : String → Prop) (m : Sql α) (Q : α → DB → Prop) (db : DB) : Prop :=
  ∀ inp : Inputs, (∀ v ∈ inp.tokens, D v) → match m db inp with
    | .ok a db' inp' => Q a db' ∧ ∀ v ∈ inp'.tokens, D v
    | .error e _ _ => e ≠ .integrity
    | .starved => True

theorem wp.mono {m : Sql α} {Q Q' : α → DB → Prop} {db : DB} (h : m.wp D Q db)
    (hQ : ∀ a db', Q a db' → Q' a db') : m.wp D Q' db := by
  intro inp hinp
  have := h inp hinp
  cases hm : m db inp with
  | ok a db' inp' => rw [hm] at this; exact ⟨hQ _ _ this.1, this.2⟩
  | error e db' inp' => rw [hm] at this; exact this
  | starved => trivial

theorem wp.pure {a : α} {Q : α → DB → Prop} {db : DB} (h : Q a db) :
    (Pure.pure a : Sql α).wp D Q db :=
  fun _ hinp => ⟨h, hinp⟩

theorem wp.bind {m : Sql α} {f : α → Sql β} {Q : β → DB → Prop} {db : DB}
    (h : m.wp D (fun a db' => (f a).wp D Q db') db) : (m >>= f).wp D Q db := by
  intro inp hinp
  have := h inp hinp
  rw [bind_run]
  cases hm : m db inp with
  | ok a db' inp' => rw [hm] at this; exact this.1 inp' this.2
  | error e db' inp' => rw [hm] at this; exact this
  | starved => trivial

theorem wp.query {f : DB → α} {Q : α → DB → Prop} {db : DB} (h : Q (f db) db) :
    (Sql.query f).wp D Q db :=
  fun _ hinp => ⟨h, hinp⟩

theorem wp.raise {e : Err} {Q : α → DB → Prop} {db : DB} (h : e ≠ .integrity) :
    (Sql.raise e : Sql α).wp D Q db := fun _ _ => h

theorem wp.execute {f : DB → DB} {Q : Unit → DB → Prop} {db : DB} (hc : (f db).Consistent)
    (h : Q () (f db)) : (Sql.execute f).wp D Q db := by
  intro inp hinp
  simp only [Sql.execute, hc, if_true]
  exact ⟨h, hinp⟩

theorem wp.now {Q : Int → DB → Prop} {db : DB} (h : ∀ t, Q t db) : Sql.now.wp D Q db := by
  rintro ⟨ts, vs⟩ hinp
  cases ts with
  | nil => exact trivial
  | cons t ts => exact ⟨h t, hinp⟩

theorem wp.orRaise {o : Option α} {e : Err} {Q : α → DB → Prop} {db : DB} (he : e ≠ .integrity)
    (h : ∀ a, o = some a → Q a db) : (Sql.orRaise o e).wp D Q db := by
  cases o with
  | none => exact wp.raise he
  | some a => exact wp.pure (h a rfl)

/-- A new secret comes from the random source and is in no column of the table. -/
theorem wp.newSecret {Q : String → DB → Prop} {db : DB}
    (h : ∀ v, D v → secretUsed v db = false → Q v db) : newSecret.wp D Q db := by
  rintro ⟨ts, vs⟩ hinp
  simp only [WebProxyPanel.newSecret]
  induction vs with
  | nil => exact trivial
  | cons v vs ih =>
    simp only [firstUnused]
    by_cases hu : secretUsed v db = true
    · simp only [hu, if_true]
      exact ih fun x hx => hinp x (by simp_all)
    · simp only [hu]
      exact ⟨h v (hinp v (by simp)) (by simpa using hu), fun x hx => hinp x (by simp_all)⟩

/-- A loop keeps what one round keeps; `I` may speak of the elements already done. -/
theorem wp.forM {ι : Type} {f : ι → Sql PUnit} {I : List ι → DB → Prop} {xs : List ι} {db : DB}
    (hstep : ∀ pre x post, xs = pre ++ x :: post → ∀ db, I pre db →
      (f x).wp D (fun _ db' => I (pre ++ [x]) db') db) (h : I [] db) :
    (xs.forM f).wp D (fun _ db' => I xs db') db := by
  have aux : ∀ (post pre : List ι) (db : DB), xs = pre ++ post → I pre db →
      (post.forM f).wp D (fun _ db' => I xs db') db := by
    intro post
    induction post with
    | nil => intro pre db hxs h; exact wp.pure (by simpa [hxs] using h)
    | cons x post ih =>
      intro pre db hxs h
      exact wp.bind ((hstep pre x post hxs db h).mono fun _ db' h' =>
        ih (pre ++ [x]) db' (by simp [hxs]) h')
  exact aux xs [] db rfl h

theorem wp.foldlM {ι : Type} {f : β → ι → Sql β} {I : List ι → β → DB → Prop} {xs : List ι} {b : β}
    {db : DB}
    (hstep : ∀ pre x post, xs = pre ++ x :: post → ∀ b db, I pre b db →
      (f b x).wp D (fun b' db' => I (pre ++ [x]) b' db') db)
    (h : I [] b db) : (xs.foldlM f b).wp D (fun b' db' => I xs b' db') db := by
  have aux : ∀ (post pre : List ι) (b : β) (db : DB), xs = pre ++ post → I pre b db →
      (post.foldlM f b).wp D (fun b' db' => I xs b' db') db := by
    intro post
    induction post with
    | nil => intro pre b db hxs h; exact wp.pure (by simpa [hxs] using h)
    | cons x post ih =>
      intro pre b db hxs h
      rw [List.foldlM_cons]
      exact wp.bind ((hstep pre x post hxs b db h).mono fun b' db' h' =>
        ih (pre ++ [x]) b' db' (by simp [hxs]) h')
  exact aux xs [] b db rfl h

end Sql
end WebProxyPanel
