import WebProxyPanel.Redact
import WebProxyPanel.StageSpec
/-!
# Statements on two alike databases

`Sql.Twin`: the same clock and any random values, and the statements end in the same way on both
databases. `Blind` adds that the databases are alike before and after, and `Steady` that the results
are equal.

The random values decide how often the loop of `_new_secret` goes round, which is nothing that
`Twin` compares.
-/

namespace WebProxyPanel
open Table

/-! ## Rules -/

section Rules
variable {α β γ δ : Type}

/-- Two ends of one piece of code: values and databases in `Q`, or the same exception. -/
def Res.Twin (Q : α → β → DB → DB → Prop) : Res α → Res β → Prop
  | .ok a D i, .ok b E j => i.times = j.times ∧ Q a b D E
  | .error e _ _, .error e' _ _ => e = e'
  -- The run without the input that it needs is not over yet.
  | .starved, _ | _, .starved => True
  | _, _ => False

theorem Res.twin_starved (Q : α → β → DB → DB → Prop) (r : Res α) : Res.Twin Q r .starved :=
  by cases r <;> trivial

namespace Sql
variable {full : Bool} {D E : DB}

def Twin (m : Sql α) (n : Sql β) (Q : α → β → DB → DB → Prop) (D E : DB) : Prop :=
  ∀ i j : Inputs, i.times = j.times → Res.Twin Q (m D i) (n E j)

theorem Twin.bind {m : Sql α} {n : Sql β} {f : α → Sql γ} {g : β → Sql δ}
    {K : α → β → DB → DB → Prop} {Q : γ → δ → DB → DB → Prop} (h : Twin m n K D E)
    (hf : ∀ a b D' E', K a b D' E' → Twin (f a) (g b) Q D' E') :
    Twin (m >>= f) (n >>= g) Q D E := by
  intro i j hij
  have hfirst := h i j hij
  rw [bind_run, bind_run]
  revert hfirst
  cases m D i with
  | ok a D' i' =>
    cases n E j with
    | ok b E' j' => exact fun hfirst => hf a b D' E' hfirst.2 i' j' hfirst.1
    | error e E' j' => exact fun hfirst => hfirst.elim
    | starved => exact fun _ => Res.twin_starved _ _
  | error e D' i' =>
    cases n E j with
    | ok b E' j' => exact fun hfirst => hfirst.elim
    | error e' E' j' => exact id
    | starved => exact fun _ => trivial
  | starved => exact fun _ => trivial

theorem Twin.mono {m : Sql α} {n : Sql β} {Q Q' : α → β → DB → DB → Prop} (h : Twin m n Q D E)
    (hQ : ∀ a b D' E', Q a b D' E' → Q' a b D' E') : Twin m n Q' D E := by
  intro i j hij
  have hend := h i j hij
  revert hend
  cases m D i <;> cases n E j <;> first | exact id | exact fun hend => ⟨hend.1, hQ _ _ _ _ hend.2⟩

theorem Twin.pure {a : α} {b : β} {Q : α → β → DB → DB → Prop} (h : Q a b D E) :
    Twin (Pure.pure a : Sql α) (Pure.pure b : Sql β) Q D E := fun _ _ hij => ⟨hij, h⟩

theorem Twin.query {f : DB → α} {g : DB → β} {Q : α → β → DB → DB → Prop} (h : Q (f D) (g E) D E) :
    Twin (Sql.query f) (Sql.query g) Q D E := fun _ _ hij => ⟨hij, h⟩

theorem Twin.raise {e : Err} {Q : α → β → DB → DB → Prop} :
    Twin (Sql.raise e : Sql α) (Sql.raise e : Sql β) Q D E :=
  fun _ _ _ => rfl

/-- Either the constraints hold after both or after neither. -/
theorem Twin.execute (full : Bool) {f g : DB → DB} (hredact : (f D).redact full = (g E).redact full)
    (hf : ((f D).slots.map (·.secret)).Nodup ∧ ((f D).slots.filterMap (·.pendingSecret)).Nodup)
    (hg : ((g E).slots.map (·.secret)).Nodup ∧ ((g E).slots.filterMap (·.pendingSecret)).Nodup)
    (hdistinct : full = true → (f D).secrets.Nodup ∧ (g E).secrets.Nodup) :
    Twin (Sql.execute f) (Sql.execute g) (fun _ _ => Alike full) D E := by
  intro i j hij
  have hiff : (f D).Consistent ↔ (g E).Consistent :=
    ⟨fun h => consistent_of_redact hredact h hg.1 hg.2,
      fun h => consistent_of_redact hredact.symm h hf.1 hf.2⟩
  unfold Sql.execute
  by_cases h : (f D).Consistent
  · rw [if_pos h, if_pos (hiff.1 h)]
    exact ⟨hij, hredact, h, hiff.1 h, hdistinct⟩
  · rw [if_neg h, if_neg (mt hiff.2 h)]
    rfl

theorem Twin.foldlM {ι κ σ τ : Type} {R : ι → κ → Prop} {K : σ → τ → DB → DB → Prop}
    {f : σ → ι → Sql σ} {g : τ → κ → Sql τ}
    (hf : ∀ a b x y D E, R x y → K a b D E → Twin (f a x) (g b y) K D E) {xs : List ι} {ys : List κ}
    (h : List.Forall₂ R xs ys) :
    ∀ {a : σ} {b : τ} {D E : DB}, K a b D E → Twin (xs.foldlM f a) (ys.foldlM g b) K D E := by
  induction h with
  | nil => exact fun hk => .pure hk
  | cons hxy _ ih =>
    intro a b D E hk
    rw [List.foldlM_cons, List.foldlM_cons]
    exact (hf _ _ _ _ _ _ hxy hk).bind fun _ _ _ _ hk => ih hk

/-- The databases stay alike, and the results are related by `ρ`. -/
def Blind (full : Bool) (ρ : α → β → Prop) (m : Sql α) (n : Sql β) : Prop :=
  ∀ D E, Alike full D E → Twin m n (fun a b D' E' => ρ a b ∧ Alike full D' E') D E

def Steady (full : Bool) (m : Sql α) : Prop := Blind full Eq m m

theorem Blind.bind {ρ : α → β → Prop} {σ : γ → δ → Prop} {m : Sql α} {n : Sql β} {f : α → Sql γ}
    {g : β → Sql δ} (h : Blind full ρ m n) (hf : ∀ a b, ρ a b → Blind full σ (f a) (g b)) :
    Blind full σ (m >>= f) (n >>= g) :=
  fun D E hDE => (h D E hDE).bind fun a b D' E' hab => hf a b hab.1 D' E' hab.2

theorem Steady.bind {σ : γ → δ → Prop} {m : Sql α} {f : α → Sql γ} {g : α → Sql δ}
    (h : Steady full m) (hf : ∀ a, Blind full σ (f a) (g a)) :
    Blind full σ (m >>= f) (m >>= g) := by
  refine Blind.bind h fun a b hab => ?_
  rw [← hab]
  exact hf a

theorem Blind.pure {ρ : α → β → Prop} {a : α} {b : β} (h : ρ a b) :
    Blind full ρ (Pure.pure a : Sql α) (Pure.pure b : Sql β) :=
  fun _ _ hDE => .pure ⟨h, hDE⟩

theorem Blind.query {ρ : α → β → Prop} {f : DB → α} {g : DB → β}
    (h : ∀ D E, Alike full D E → ρ (f D) (g E)) :
    Blind full ρ (Sql.query f) (Sql.query g) := fun D E hDE => .query ⟨h D E hDE, hDE⟩

theorem Blind.raise {ρ : α → β → Prop} {e : Err} :
    Blind full ρ (Sql.raise e : Sql α) (Sql.raise e : Sql β) :=
  fun _ _ _ => .raise

theorem Blind.orRaise {κ : Type} {h : α → κ} {o o' : Option α} {e : Err} (ho : o.map h = o'.map h) :
    Blind full (fun a b => h a = h b) (Sql.orRaise o e) (Sql.orRaise o' e) := by
  cases o with
  | none =>
    cases o' with
    | none => exact .raise
    | some b => simp at ho
  | some a =>
    cases o' with
    | none => simp at ho
    | some b => exact .pure (by simpa using ho)

end Sql

end Rules

/-! ## Slots

Two rows may be compared as far as the databases can be. -/

def SameSlot (full : Bool) (s t : Slot) : Prop := s.redact full = t.redact full

section Slots
open Sql
variable {full : Bool} {s t : Slot}

theorem SameSlot.column {α : Type} {g : Slot → α} (hg : ∀ s : Slot, g (s.redact full) = g s)
    (h : SameSlot full s t) : g s = g t := by
  rw [← hg s, h, hg]

theorem SameSlot.id (h : SameSlot full s t) : s.id = t.id := h.column (g := Slot.id) fun _ => rfl
theorem SameSlot.port (h : SameSlot full s t) : s.port = t.port :=
  h.column (g := Slot.port) fun _ => rfl
theorem SameSlot.shardId (h : SameSlot full s t) : s.shardId = t.shardId :=
  h.column (g := Slot.shardId) fun _ => rfl

theorem SameSlot.pending (h : SameSlot true s t) :
    s.pendingSecret = none ↔ t.pendingSecret = none := by
  have hpending := congrArg Slot.pendingSecret h
  cases hs : s.pendingSecret <;> cases ht : t.pendingSecret <;> simp [hs, ht] at hpending ⊢

end Slots

/-! ## Users and devices -/

namespace Users
open Sql
variable {full : Bool}

end Users

/-! ## The pool

`abort_staged` is where two databases begin to show the same slots as staged. -/

section Pool
open Sql
variable {full : Bool} {D E : DB} {s t : Slot}

end Pool

end WebProxyPanel
