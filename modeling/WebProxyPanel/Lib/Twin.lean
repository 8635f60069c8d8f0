import Mathlib.Data.List.Forall2
import WebProxyPanel.Lib.Prog
/-!
# Two runs side by side

* `Twin` — two programs take step after step together, the first with one choice, the second with a
  choice that `C` relates to it. They end together: with values and states in `K`, or with
  exceptions and states in `E`.
* `Twin.ended` — what that says of two runs against two lists of choices.

Nothing is said of the states on the way: an answer that the two programs get may differ as long as
what they do next is still the same step for step.
-/

namespace Effects

variable {A : Type → Type 1} {ε χ S α β γ δ : Type}

/-- Two outcomes: both values, or both exceptions. -/
def Ends₂ (K : α → β → S → S → Prop) (E : ε → ε → S → S → Prop) :
    Except ε α → Except ε β → S → S → Prop
  | .ok a, .ok b => K a b
  | .error e, .error e' => E e e'
  | _, _ => fun _ _ => False

def Twin (sem : Sem A ε χ S) (C : χ → χ → Prop) (K : α → β → S → S → Prop)
    (E : ε → ε → S → S → Prop) :
    Prog A ε α → Prog A ε β → S → S → Prop
  | .ret a, .ret b, s, t => K a b s t
  | .raise e, .raise e', s, t => E e e' s t
  | .act a k, .act b k', s, t => ∀ c d, C c d → ∀ r r' s₁ t₁, sem.perform c a s = some (r, s₁) →
      sem.perform d b t = some (r', t₁) → Twin sem C K E (k r) (k' r') s₁ t₁
  | _, _, _, _ => False

namespace Twin
variable {sem : Sem A ε χ S} {C : χ → χ → Prop} {K : α → β → S → S → Prop}
  {E : ε → ε → S → S → Prop}

theorem mono {K' : α → β → S → S → Prop} {E' : ε → ε → S → S → Prop}
    (hK : ∀ a b s t, K a b s t → K' a b s t) (hE : ∀ e e' s t, E e e' s t → E' e e' s t) :
    ∀ {p : Prog A ε α} {q : Prog A ε β} {s t : S}, Twin sem C K E p q s t → Twin sem C K' E' p q s t
  | .ret _, .ret _, _, _, h => hK _ _ _ _ h
  | .raise _, .raise _, _, _, h => hE _ _ _ _ h
  | .act _ _, .act _ _, _, _, h =>
    fun c d hc r r' s₁ t₁ h₁ h₂ => (h c d hc r r' s₁ t₁ h₁ h₂).mono hK hE
  | .ret _, .raise _, _, _, h | .ret _, .act _ _, _, _, h | .raise _, .ret _, _, _, h | .raise _,
      .act _ _, _, _, h
  | .act _ _, .ret _, _, _, h | .act _ _, .raise _, _, _, h => h.elim

theorem bind {L : γ → δ → S → S → Prop} {f : α → Prog A ε γ} {g : β → Prog A ε δ} :
    ∀ {p : Prog A ε α} {q : Prog A ε β} {s t : S},
      Twin sem C (fun a b => Twin sem C L E (f a) (g b)) E p q s t →
      Twin sem C L E (p.bind f) (q.bind g) s t
  | .ret _, .ret _, _, _, h => h
  | .raise _, .raise _, _, _, h => h
  | .act _ _, .act _ _, _, _, h => fun c d hc r r' s₁ t₁ h₁ h₂ => (h c d hc r r' s₁ t₁ h₁ h₂).bind
  | .ret _, .raise _, _, _, h | .ret _, .act _ _, _, _, h | .raise _, .ret _, _, _, h | .raise _,
      .act _ _, _, _, h
  | .act _ _, .ret _, _, _, h | .act _ _, .raise _, _, _, h => h.elim

theorem tryCatch {f : ε → Prog A ε α} {g : ε → Prog A ε β} :
    ∀ {p : Prog A ε α} {q : Prog A ε β} {s t : S},
      Twin sem C K (fun e e' => Twin sem C K E (f e) (g e')) p q s t →
      Twin sem C K E (p.tryCatch f) (q.tryCatch g) s t
  | .ret _, .ret _, _, _, h => h
  | .raise _, .raise _, _, _, h => h
  | .act _ _, .act _ _, _, _, h =>
    fun c d hc r r' s₁ t₁ h₁ h₂ => (h c d hc r r' s₁ t₁ h₁ h₂).tryCatch
  | .ret _, .raise _, _, _, h | .ret _, .act _ _, _, _, h | .raise _, .ret _, _, _, h | .raise _,
      .act _ _, _, _, h
  | .act _ _, .ret _, _, _, h | .act _ _, .raise _, _, _, h => h.elim

/-- What the first parts end in is enough for the second parts. -/
theorem seq {L : γ → δ → S → S → Prop} {p : Prog A ε α} {q : Prog A ε β} {f : α → Prog A ε γ}
    {g : β → Prog A ε δ} {s t : S} (hp : Twin sem C K E p q s t)
    (hf : ∀ a b s t, K a b s t → Twin sem C L E (f a) (g b) s t) :
    Twin sem C L E (p.bind f) (q.bind g) s t :=
  (hp.mono hf fun _ _ _ _ h => h).bind

/-- Handlers that meet what the bodies raise. -/
theorem handle {F : ε → ε → S → S → Prop} {p : Prog A ε α} {q : Prog A ε β} {f : ε → Prog A ε α}
    {g : ε → Prog A ε β} {s t : S} (hp : Twin sem C K F p q s t)
    (hf : ∀ e e' s t, F e e' s t → Twin sem C K E (f e) (g e') s t) :
    Twin sem C K E (p.tryCatch f) (q.tryCatch g) s t :=
  (hp.mono (fun _ _ _ _ h => h) hf).tryCatch

theorem call {a : A α} {b : A β} {s t : S}
    (h : ∀ c d, C c d → ∀ r r' s₁ t₁, sem.perform c a s = some (r, s₁) →
      sem.perform d b t = some (r', t₁) → Ends₂ K E r r' s₁ t₁) :
    Twin sem C K E (.call a) (.call b) s t := by
  intro c d hc r r' s₁ t₁ h₁ h₂
  have hend := h c d hc r r' s₁ t₁ h₁ h₂
  cases r <;> cases r' <;> exact hend

/-- One `finally` for either way out. -/
theorem tryFinally {L : α → β → S → S → Prop} {F : ε → ε → S → S → Prop} {p : Prog A ε α}
    {q : Prog A ε β} {f g : Prog A ε Unit} {s t : S} (hp : Twin sem C L F p q s t)
    (hf : ∀ a b s t, L a b s t → Twin sem C (fun _ _ => K a b) E f g s t)
    (hf' : ∀ e e' s t, F e e' s t → Twin sem C (fun _ _ => E e e') E f g s t) :
    Twin sem C K E (p.tryFinally f) (q.tryFinally g) s t := by
  refine seq (K := Ends₂ L F)
    (handle (F := F) (seq (K := L) hp fun a b s t h => h) fun e e' s t h => h) ?_
  intro out out' s t h
  cases out with
  | ok a =>
    cases out' with
    | ok b => exact seq (hf a b s t h) fun _ _ s t h => h
    | error e => exact h.elim
  | error e =>
    cases out' with
    | ok b => exact h.elim
    | error e' => exact seq (hf' e e' s t h) fun _ _ s t h => h

/-- A loop over two lists that are related element by element. -/
theorem forM {ι κ : Type} {I : S → S → Prop} {R : ι → κ → Prop} {f : ι → Prog A ε PUnit}
    {g : κ → Prog A ε PUnit}
    (hf : ∀ x y s t, R x y → I s t → Twin sem C (fun _ _ => I) E (f x) (g y) s t) {xs : List ι}
    {ys : List κ} (h : List.Forall₂ R xs ys) :
    ∀ {s t : S}, I s t → Twin sem C (fun _ _ => I) E (xs.forM f) (ys.forM g) s t := by
  induction h with
  | nil => exact id
  | @cons x y xs ys hxy _ ih =>
    exact fun hi => seq (K := fun _ _ => I) (hf x y _ _ hxy hi) fun _ _ s t h => ih h

/-- A complete run of the first program, and a run of the second against choices related to its own.
-/
theorem ends {allow allow' : χ → {β : Type} → A β → S → Bool} {out : Except ε α} {s' : S}
    {q' : Prog A ε β} {t' : S} :
    ∀ {cs ds : List χ} {p : Prog A ε α} {q : Prog A ε β} {s t : S}, Twin sem C K E p q s t →
      List.Forall₂ C cs ds →
      sem.play allow cs p s = some (.ended out, s') → sem.play allow' ds q t = some (q', t') →
      ∃ out', q' = .ended out' ∧ Ends₂ K E out out' s' t'
  | _, _, p, q, s, t, h, .nil, hp, hq => by
    simp only [Sem.play, Option.some.injEq, Prod.mk.injEq] at hp hq
    obtain ⟨rfl, rfl⟩ := hp
    obtain ⟨rfl, rfl⟩ := hq
    cases out with
    | ok a =>
      cases q with
      | ret b => exact ⟨.ok b, rfl, h⟩
      | raise e => exact h.elim
      | act b k => exact h.elim
    | error e =>
      cases q with
      | ret b => exact h.elim
      | raise e' => exact ⟨.error e', rfl, h⟩
      | act b k => exact h.elim
  | _, _, .ret _, _, _, _, _, .cons _ _, hp, _ | _, _, .raise _, _, _, _, _, .cons _ _, hp, _ =>
    by simp [Sem.play] at hp
  | _, _, .act _ _, .ret _, _, _, h, .cons _ _, _, _ | _, _, .act _ _, .raise _, _, _, h,
    .cons _ _, _, _ =>
    h.elim
  | _, _, .act a k, .act b k', s, t, h, .cons hc hcs, hp, hq => by
    simp only [Sem.play] at hp hq
    split at hp
    · split at hq
      · obtain ⟨⟨r, s₁⟩, h₁, hp⟩ := Option.bind_eq_some_iff.1 hp
        obtain ⟨⟨r', t₁⟩, h₂, hq⟩ := Option.bind_eq_some_iff.1 hq
        exact ends (h _ _ hc r r' s₁ t₁ h₁ h₂) hcs hp hq
      · simp at hq
    · simp at hp

end Twin

end Effects
