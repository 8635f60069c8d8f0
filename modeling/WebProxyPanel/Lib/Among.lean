import Mathlib.Logic.Relation
import WebProxyPanel.Lib.Prog
/-!
# Programs among others

A program runs while others move: between two of its actions the state may change by any number of
steps of `R`. `Among` is such a run as one relation, up to the end of the program or to the point
where it is cut off.

* `among_bind`, `among_call` — the run of a sequence, and of an action.
* `Among.keeps` — what all actions of a program keep, and all steps of the others, the run keeps.
-/

namespace Effects

/-- Which answers an action may give in a state, and what it leaves. -/
abbrev Answers (A : Type → Type 1) (ε σ : Type) := {β : Type} → σ → A β → Except ε β → σ → Prop

/-- A run from one state to another; its outcome is `none` where it was cut off. -/
inductive Among {A : Type → Type 1} {ε σ α : Type} (does : Answers A ε σ) (R : σ → σ → Prop) :
    Prog A ε α → σ → Option (Except ε α) → σ → Prop
  | ret {a : α} {s s' : σ} : Relation.ReflTransGen R s s' → Among does R (.ret a) s
      (some (.ok a)) s'
  | raise {e : ε} {s s' : σ} : Relation.ReflTransGen R s s' → Among does R (.raise e) s
      (some (.error e)) s'
  | cut {p : Prog A ε α} {s s' : σ} : Relation.ReflTransGen R s s' → Among does R p s none s'
  | act {β : Type} {a : A β} {k : Except ε β → Prog A ε α} {s s₁ s₂ s' : σ} {r : Except ε β}
      {out : Option (Except ε α)} :
      Relation.ReflTransGen R s s₁ → does s₁ a r s₂ → Among does R (k r) s₂ out s' →
        Among does R (.act a k) s out s'

section Among
variable {A : Type → Type 1} {ε σ α β : Type} {does : Answers A ε σ} {R : σ → σ → Prop}
  {p : Prog A ε α} {f : α → Prog A ε β} {s s₁ s' : σ}

theorem among_ret {a : α} {out : Option (Except ε α)} :
    Among does R (.ret a) s out s' ↔ Relation.ReflTransGen R s s' ∧
      (out = some (.ok a) ∨ out = none) := by
  constructor
  · intro h
    cases h with
    | ret hr => exact ⟨hr, Or.inl rfl⟩
    | cut hr => exact ⟨hr, Or.inr rfl⟩
  · rintro ⟨hr, rfl | rfl⟩
    · exact .ret hr
    · exact .cut hr

theorem among_raise {e : ε} {out : Option (Except ε α)} :
    Among does R (.raise e : Prog A ε α) s out s' ↔ Relation.ReflTransGen R s s' ∧
      (out = some (.error e) ∨ out = none) := by
  constructor
  · intro h
    cases h with
    | raise hr => exact ⟨hr, Or.inl rfl⟩
    | cut hr => exact ⟨hr, Or.inr rfl⟩
  · rintro ⟨hr, rfl | rfl⟩
    · exact .raise hr
    · exact .cut hr

/-- The others may move first. -/
theorem Among.after {out : Option (Except ε α)} (hr : Relation.ReflTransGen R s s₁)
    (h : Among does R p s₁ out s') : Among does R p s out s' := by
  cases h with
  | ret h => exact .ret (hr.trans h)
  | raise h => exact .raise (hr.trans h)
  | cut h => exact .cut (hr.trans h)
  | act h hd hk => exact .act (hr.trans h) hd hk

theorem Among.before {out : Option (Except ε α)} (h : Among does R p s out s₁)
    (hr : Relation.ReflTransGen R s₁ s') : Among does R p s out s' := by
  induction h with
  | ret h => exact .ret (h.trans hr)
  | raise h => exact .raise (h.trans hr)
  | cut h => exact .cut (h.trans hr)
  | act h hd _ ih => exact .act h hd (ih hr)

theorem Among.bind {a : α} {out : Option (Except ε β)} (hp : Among does R p s (some (.ok a)) s₁)
    (hf : Among does R (f a) s₁ out s') : Among does R (p.bind f) s out s' := by
  induction p generalizing s with
  | ret b =>
    obtain ⟨hr, ha | ha⟩ := among_ret.1 hp
    · rw [Except.ok.inj (Option.some.inj ha)] at hf
      exact hf.after hr
    · cases ha
  | raise e =>
    obtain ⟨-, ha | ha⟩ := among_raise.1 hp <;> cases ha
  | act a k ih =>
    cases hp with
    | act hr hd hk => exact .act hr hd (ih _ hk)

theorem Among.bind_error {e : ε} (hp : Among does R p s (some (.error e)) s') :
    Among does R (p.bind f) s (some (.error e)) s' := by
  induction p generalizing s with
  | ret b =>
    obtain ⟨-, ha | ha⟩ := among_ret.1 hp <;> cases ha
  | raise e' =>
    obtain ⟨hr, ha | ha⟩ := among_raise.1 hp
    · rw [Except.error.inj (Option.some.inj ha)]
      exact .raise hr
    · cases ha
  | act a k ih =>
    cases hp with
    | act hr hd hk => exact .act hr hd (ih _ hk)

/-- The first of two programs is cut off or raises, or it returns and the second one runs. -/
theorem among_bind {out : Option (Except ε β)} (h : Among does R (p.bind f) s out s') :
    (Among does R p s none s' ∧ out = none) ∨
      (∃ e, Among does R p s (some (.error e)) s' ∧ out = some (.error e)) ∨
      ∃ a s₁, Among does R p s (some (.ok a)) s₁ ∧ Among does R (f a) s₁ out s' := by
  induction p generalizing s with
  | ret a => exact .inr (.inr ⟨a, s, .ret .refl, h⟩)
  | raise e =>
    obtain ⟨hr, rfl | rfl⟩ := among_raise.1 h
    · exact .inr (.inl ⟨e, .raise hr, rfl⟩)
    · exact .inl ⟨.cut hr, rfl⟩
  | act a k ih =>
    cases h with
    | cut hr => exact .inl ⟨.cut hr, rfl⟩
    | act hr hd hk =>
      rcases ih _ hk with ⟨h, rfl⟩ | ⟨e, h, rfl⟩ | ⟨b, s₁, h, hf⟩
      · exact .inl ⟨.act hr hd h, rfl⟩
      · exact .inr (.inl ⟨e, .act hr hd h, rfl⟩)
      · exact .inr (.inr ⟨b, s₁, .act hr hd h, hf⟩)

/-- If a sequence returns, both programs have. -/
theorem among_bind_ok {b : β} (h : Among does R (p.bind f) s (some (.ok b)) s') :
    ∃ a s₁, Among does R p s (some (.ok a)) s₁ ∧ Among does R (f a) s₁ (some (.ok b)) s' := by
  rcases among_bind h with ⟨-, hout⟩ | ⟨e, -, hout⟩ | h
  · cases hout
  · cases hout
  · exact h

/-- An action was not reached, or it was answered. -/
theorem among_call {a : A β} {out : Option (Except ε β)} (h : Among does R (.call a) s out s') :
    (Relation.ReflTransGen R s s' ∧ out = none) ∨
      ∃ s₁ r s₂, Relation.ReflTransGen R s s₁ ∧ does s₁ a r s₂ ∧ Relation.ReflTransGen R s₂ s' ∧
        (out = some r ∨ out = none) := by
  cases h with
  | cut hr => exact .inl ⟨hr, rfl⟩
  | act hr hd hk =>
    rename_i s₁ s₂ r
    refine .inr ⟨s₁, r, s₂, hr, hd, ?_⟩
    cases r with
    | ok b => exact among_ret.1 hk
    | error e => exact among_raise.1 hk

theorem among_call_ok {a : A β} {b : β} (h : Among does R (.call a) s (some (.ok b)) s') :
    ∃ s₁ s₂, Relation.ReflTransGen R s s₁ ∧ does s₁ a (.ok b) s₂ ∧
      Relation.ReflTransGen R s₂ s' := by
  rcases among_call h with ⟨-, hout⟩ | ⟨s₁, r, s₂, hr, hd, hr', hout | hout⟩
  · cases hout
  · cases hout
    exact ⟨s₁, s₂, hr, hd, hr'⟩
  · cases hout

theorem Among.call {a : A β} {r : Except ε β} {s₂ : σ} (hr : Relation.ReflTransGen R s s₁)
    (hd : does s₁ a r s₂) (hr' : Relation.ReflTransGen R s₂ s') :
    Among does R (.call a) s (some r) s' := by
  refine .act hr hd ?_
  cases r with
  | ok b => exact .ret hr'
  | error e => exact .raise hr'

/-- A program all of whose actions leave the state as far as the others might. -/
theorem Among.keeps (T : σ → σ → Prop) {H : {β : Type} → A β → Prop} (hrefl : ∀ s, T s s)
    (htrans : ∀ s s₁ s', T s s₁ → T s₁ s' → T s s') (hR : ∀ s s', R s s' → T s s')
    (hH : ∀ {β : Type} (a : A β) s r s', H a → does s a r s' → T s s') {out : Option (Except ε α)}
    (hp : p.Only H) (h : Among does R p s out s') : T s s' := by
  have hothers : ∀ {s s'}, Relation.ReflTransGen R s s' → T s s' := by
    intro s s' hr
    induction hr with
    | refl => exact hrefl _
    | tail _ hs ih => exact htrans _ _ _ ih (hR _ _ hs)
  induction h with
  | ret h | raise h | cut h => exact hothers h
  | act hr hd _ ih =>
    exact htrans _ _ _ (hothers hr) (htrans _ _ _ (hH _ _ _ _ hp.1 hd) (ih (hp.2 _)))

end Among
end Effects
