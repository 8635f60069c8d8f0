import WebProxyPanel.Lib.Prog
/-!
# Programs against arbitrary answers

Where nothing is known of the outside, a run of a program is the list of its actions with their
answers.

* `Ran p es out` — `p` has a run with the exchanges `es` that ends in `out`.
* `Does P Q p` — in every run all exchanges satisfy `P`, and if the program returns, `Q` holds of
  the result.
-/

namespace Effects

/-- An action and its answer. -/
structure Exchange (A : Type → Type 1) (ε : Type) : Type 1 where
  {β : Type}
  action : A β
  answer : Except ε β

namespace Prog

variable {A : Type → Type 1} {ε α β γ : Type}

inductive Ran : Prog A ε α → List (Exchange A ε) → Except ε α → Prop
  | ret (a : α) : Ran (.ret a) [] (.ok a)
  | raise (e : ε) : Ran (.raise e) [] (.error e)
  | act {β : Type} {a : A β} {k : Except ε β → Prog A ε α} (r : Except ε β)
      {es : List (Exchange A ε)} {out : Except ε α} :
      Ran (k r) es out → Ran (.act a k) (⟨a, r⟩ :: es) out

theorem ran_ret {a : α} {es : List (Exchange A ε)} {out : Except ε α} :
    Ran (.ret a : Prog A ε α) es out ↔ es = [] ∧ out = .ok a := by
  constructor
  · rintro ⟨⟩
    exact ⟨rfl, rfl⟩
  · rintro ⟨rfl, rfl⟩
    exact .ret a

theorem ran_raise {e : ε} {es : List (Exchange A ε)} {out : Except ε α} :
    Ran (.raise e : Prog A ε α) es out ↔ es = [] ∧ out = .error e := by
  constructor
  · rintro ⟨⟩
    exact ⟨rfl, rfl⟩
  · rintro ⟨rfl, rfl⟩
    exact .raise e

theorem ran_act {a : A β} {k : Except ε β → Prog A ε α} {es : List (Exchange A ε)}
    {out : Except ε α} :
    Ran (.act a k) es out ↔ ∃ r es', es = ⟨a, r⟩ :: es' ∧ Ran (k r) es' out := by
  constructor
  · intro h
    cases h with
    | act r h => exact ⟨r, _, rfl, h⟩
  · rintro ⟨r, es', rfl, h⟩
    exact .act r h

/-- A run of two programs in sequence is a run of the first and, if it returns, one of the second.
-/
theorem ran_bind {p : Prog A ε α} {f : α → Prog A ε β} {es : List (Exchange A ε)}
    {out : Except ε β} :
    Ran (p.bind f) es out ↔ (∃ e, Ran p es (.error e) ∧ out = .error e) ∨
      ∃ a es₁ es₂, es = es₁ ++ es₂ ∧ Ran p es₁ (.ok a) ∧ Ran (f a) es₂ out := by
  induction p generalizing es with
  | ret a =>
    rw [ret_bind]
    constructor
    · exact fun h => .inr ⟨a, [], es, rfl, .ret a, h⟩
    · rintro (⟨e, h, -⟩ | ⟨a', es₁, es₂, rfl, h₁, h₂⟩)
      · simp [ran_ret] at h
      · obtain ⟨rfl, ha⟩ := ran_ret.1 h₁
        rw [List.nil_append, ← Except.ok.inj ha]
        exact h₂
  | raise e =>
    rw [raise_bind, ran_raise]
    constructor
    · rintro ⟨rfl, rfl⟩
      exact .inl ⟨e, .raise e, rfl⟩
    · rintro (⟨e', h, rfl⟩ | ⟨a', es₁, es₂, -, h₁, -⟩)
      · obtain ⟨rfl, he⟩ := ran_raise.1 h
        exact ⟨rfl, congrArg _ (Except.error.inj he)⟩
      · simp [ran_raise] at h₁
  | act a k ih =>
    rw [act_bind, ran_act]
    constructor
    · rintro ⟨r, es', rfl, h⟩
      rcases (ih r).1 h with ⟨e, he, rfl⟩ | ⟨b, es₁, es₂, rfl, h₁, h₂⟩
      · exact .inl ⟨e, Ran.act r he, rfl⟩
      · exact .inr ⟨b, ⟨a, r⟩ :: es₁, es₂, rfl, Ran.act r h₁, h₂⟩
    · rintro (⟨e, h, rfl⟩ | ⟨b, es₁, es₂, rfl, h₁, h₂⟩)
      · obtain ⟨r, es', rfl, he⟩ := ran_act.1 h
        exact ⟨r, es', rfl, (ih r).2 (.inl ⟨e, he, rfl⟩)⟩
      · obtain ⟨r, es', rfl, h⟩ := ran_act.1 h₁
        exact ⟨r, es' ++ es₂, rfl, (ih r).2 (.inr ⟨b, es', es₂, rfl, h, h₂⟩)⟩

theorem ran_call {a : A β} {es : List (Exchange A ε)} {out : Except ε β} :
    Ran (.call a) es out ↔ es = [⟨a, out⟩] := by
  unfold call
  rw [ran_act]
  constructor
  · rintro ⟨r, es', rfl, h⟩
    cases r with
    | ok b =>
      obtain ⟨rfl, rfl⟩ := ran_ret.1 h
      rfl
    | error e =>
      obtain ⟨rfl, rfl⟩ := ran_raise.1 h
      rfl
  · rintro rfl
    refine ⟨out, [], rfl, ?_⟩
    cases out with
    | ok b => exact .ret b
    | error e => exact .raise e

/-- A loop that returns has run every round to its end. -/
theorem Ran.forM {ι : Type} {f : ι → Prog A ε PUnit} {xs : List ι} {es : List (Exchange A ε)}
    (h : Ran (xs.forM f) es (.ok ⟨⟩)) : ∀ x ∈ xs, ∃ es', es' ⊆ es ∧ Ran (f x) es' (.ok ⟨⟩) := by
  induction xs generalizing es with
  | nil => simp
  | cons x xs ih =>
    rcases ran_bind.1 h with ⟨e, -, he⟩ | ⟨_, es₁, es₂, rfl, h₁, h₂⟩
    · simp at he
    · rintro y (_ | ⟨_, hy⟩)
      · exact ⟨es₁, List.subset_append_left _ _, h₁⟩
      · obtain ⟨es', hsub, hran⟩ := ih h₂ y hy
        exact ⟨es', fun e he => List.mem_append_right _ (hsub he), hran⟩

/-- The run in which every action is answered by `env`. -/
def follow (env : {β : Type} → A β → Except ε β) : Prog A ε α → List (Exchange A ε) × Except ε α
  | .ret a => ([], .ok a)
  | .raise e => ([], .error e)
  | .act a k => (⟨a, env a⟩ :: (follow env (k (env a))).1, (follow env (k (env a))).2)

theorem ran_follow (env : {β : Type} → A β → Except ε β) :
    ∀ p : Prog A ε α, Ran p (follow env p).1 (follow env p).2
  | .ret a => .ret a
  | .raise e => .raise e
  | .act a k => .act (env a) (ran_follow env (k (env a)))

/-- Every action of it is answered so, and no other run has these answers. -/
theorem follow_answers (env : {β : Type} → A β → Except ε β) :
    ∀ p : Prog A ε α, ∀ e ∈ (follow env p).1, e.answer = env e.action
  | .ret _, _, h | .raise _, _, h => absurd h List.not_mem_nil
  | .act _ k, e, h => by
    rcases List.mem_cons.1 h with rfl | h
    · rfl
    · exact follow_answers env (k _) e h

theorem Ran.eq_follow {env : {β : Type} → A β → Except ε β} {p : Prog A ε α}
    {es : List (Exchange A ε)} {out : Except ε α} (h : Ran p es out)
    (henv : ∀ e ∈ es, e.answer = env e.action) : follow env p = (es, out) := by
  induction h with
  | ret | raise => rfl
  | @act β a k r es out h ih =>
    obtain rfl : r = env a := henv ⟨a, r⟩ List.mem_cons_self
    rw [follow, ih fun e he => henv e (List.mem_cons_of_mem _ he)]

theorem follow_bind {env : {β : Type} → A β → Except ε β} {p : Prog A ε α} {a : α}
    (h : (follow env p).2 = .ok a) (f : α → Prog A ε β) :
    follow env (p.bind f) = ((follow env p).1 ++ (follow env (f a)).1, (follow env (f a)).2) := by
  induction p with
  | ret b =>
    obtain rfl := Except.ok.inj h
    rfl
  | raise e => cases h
  | act b k ih =>
    rw [act_bind, follow, ih _ h]
    rfl

/-- The first of two programs goes the same way by itself. -/
theorem follow_subset_bind (env : {β : Type} → A β → Except ε β) :
    ∀ (p : Prog A ε α) (f : α → Prog A ε β),
    (follow env p).1 ⊆ (follow env (p.bind f)).1
  | .ret _, _ => List.nil_subset _
  | .raise _, _ => List.nil_subset _
  | .act a k, f => List.cons_subset_cons _ (follow_subset_bind env (k (env a)) f)

/-- All exchanges satisfy `P`, and the result satisfies `Q`. -/
def Does (P : Exchange A ε → Prop) (Q : α → Prop) (p : Prog A ε α) : Prop :=
  ∀ es out, Ran p es out → (∀ e ∈ es, P e) ∧ ∀ a, out = .ok a → Q a

section Does
variable {P : Exchange A ε → Prop} {Q : α → Prop} {R : β → Prop}

theorem Does.ret {a : α} (h : Q a) : Does P Q (.ret a) := by
  intro es out hr
  obtain ⟨rfl, rfl⟩ := ran_ret.1 hr
  exact ⟨by simp, fun b hb => Except.ok.inj hb ▸ h⟩

theorem Does.raise {e : ε} : Does P Q (.raise e) := by
  intro es out hr
  obtain ⟨rfl, rfl⟩ := ran_raise.1 hr
  exact ⟨by simp, by simp⟩

theorem Does.bind {p : Prog A ε α} {f : α → Prog A ε β} (hp : Does P Q p)
    (hf : ∀ a, Q a → Does P R (f a)) : Does P R (p.bind f) := by
  intro es out hr
  rcases ran_bind.1 hr with ⟨e, h, rfl⟩ | ⟨a, es₁, es₂, rfl, h₁, h₂⟩
  · exact ⟨(hp es _ h).1, by simp⟩
  · obtain ⟨hes₁, hq⟩ := hp es₁ _ h₁
    obtain ⟨hes₂, hr⟩ := hf a (hq a rfl) es₂ out h₂
    exact ⟨fun e he => (List.mem_append.1 he).elim (hes₁ e) (hes₂ e), hr⟩

theorem Does.call {a : A β} (h : ∀ r, P ⟨a, r⟩) : Does P (fun _ => True) (.call a) := by
  intro es out hr
  rw [ran_call.1 hr]
  exact ⟨by simpa using h out, fun _ _ => trivial⟩

theorem Does.mono {Q' : α → Prop} {p : Prog A ε α} (hQ : ∀ a, Q a → Q' a) (h : Does P Q p) :
    Does P Q' p :=
  fun es out hr => ⟨(h es out hr).1, fun a ha => hQ a ((h es out hr).2 a ha)⟩

theorem Does.forM {ι : Type} {f : ι → Prog A ε PUnit} (xs : List ι)
    (h : ∀ x ∈ xs, Does P (fun _ => True) (f x)) : Does P (fun _ => True) (xs.forM f) := by
  induction xs with
  | nil => exact Does.ret trivial
  | cons x xs ih =>
    exact Does.bind (h x List.mem_cons_self) fun _ _ => ih fun y hy =>
      h y (List.mem_cons_of_mem _ hy)

end Does

end Prog
end Effects
