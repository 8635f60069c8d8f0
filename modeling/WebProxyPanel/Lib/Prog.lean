import Mathlib.Order.Basic
/-!
# Programs with outside actions

A program is its control flow, with every call that leaves the process as a node: the node holds the
action, and the rest of the program is a function of the answer, which is a result or an exception.
Handlers and loops are ordinary functions on programs. A process that stops between two of its steps
is a program that was run only part of the way.

* `Sem`, `play` — the outside picks one choice for every action; a list of choices is a run.
* `Steps` — the same run as a relation, for choices that a fault model allows.
* `Safe` — rely and guarantee: before each action the program keeps the guard `G`, whatever the
  others did to the shared state in between (`R`), and it ends in `Q`.
-/

namespace Effects

/-- Control flow over actions `A`; an action of type `A β` answers with a `β` or raises an `ε`. -/
inductive Prog (A : Type → Type 1) (ε α : Type) : Type 1 where
  | ret (a : α) : Prog A ε α
  | raise (e : ε) : Prog A ε α
  | act {β : Type} (a : A β) (k : Except ε β → Prog A ε α) : Prog A ε α

namespace Prog

variable {A : Type → Type 1} {ε α β γ : Type}

/-- Sequencing: the second program runs only if the first one returns. -/
def bind : Prog A ε α → (α → Prog A ε β) → Prog A ε β
  | .ret a, f => f a
  | .raise e, _ => .raise e
  | .act a k, f => .act a fun r => (k r).bind f

/-- `try p except e: h e`. -/
def tryCatch : Prog A ε α → (ε → Prog A ε α) → Prog A ε α
  | .ret a, _ => .ret a
  | .raise e, h => h e
  | .act a k, h => .act a fun r => (k r).tryCatch h

/-- A bare call of an action: its exception is the program's. -/
def call (a : A β) : Prog A ε β :=
  .act a fun r => match r with
    | .ok b => .ret b
    | .error e => .raise e

/-- `if c: p` -/
def runIf (c : Prop) [Decidable c] (p : Prog A ε Unit) : Prog A ε Unit := if c then p else .ret ()

instance : Monad (Prog A ε) where
  pure := .ret
  bind := .bind

@[simp] theorem pure_eq (a : α) : (pure a : Prog A ε α) = .ret a := rfl
@[simp] theorem bind_eq (p : Prog A ε α) (f : α → Prog A ε β) : p >>= f = p.bind f := rfl
@[simp] theorem ret_bind (a : α) (f : α → Prog A ε β) : (ret a : Prog A ε α).bind f = f a := rfl
@[simp] theorem raise_bind (e : ε) (f : α → Prog A ε β) :
    (raise e : Prog A ε α).bind f = .raise e := rfl
@[simp] theorem act_bind (a : A γ) (k : Except ε γ → Prog A ε α) (f : α → Prog A ε β) :
    (act a k).bind f = .act a fun r => (k r).bind f := rfl

theorem bind_ret (p : Prog A ε α) : p.bind .ret = p := by
  induction p with
  | ret a => rfl
  | raise e => rfl
  | act a k ih => simp [ih]

theorem bind_assoc (p : Prog A ε α) (f : α → Prog A ε β) (g : β → Prog A ε γ) :
    (p.bind f).bind g = p.bind fun a => (f a).bind g := by
  induction p with
  | ret a => rfl
  | raise e => rfl
  | act a k ih => simp [ih]

instance : LawfulMonad (Prog A ε) :=
  LawfulMonad.mk' _ (fun p => bind_ret p) (fun _ _ => rfl) (fun p f g => bind_assoc p f g)

/-- `try p finally q`: `q` runs on both ways out, and an exception of `q` replaces the outcome of
`p`. -/
def tryFinally (p : Prog A ε α) (q : Prog A ε Unit) : Prog A ε α :=
  ((p.bind fun a => .ret (Except.ok a)).tryCatch fun e => .ret (.error e)).bind fun out =>
    q.bind fun _ => match out with
      | .ok a => .ret a
      | .error e => .raise e

/-- Every action that can come up satisfies `H`, whatever the answers. -/
def Only (H : {β : Type} → A β → Prop) : Prog A ε α → Prop
  | .ret _ | .raise _ => True
  | .act a k => H a ∧ ∀ r, (k r).Only H

section Only
variable {H : {β : Type} → A β → Prop}

theorem Only.mono {H' : {β : Type} → A β → Prop} (hH : ∀ {γ : Type} (a : A γ), H a → H' a) :
    ∀ {p : Prog A ε α}, p.Only H → p.Only H'
  | .ret _, _ | .raise _, _ => trivial
  | .act a _, h => ⟨hH a h.1, fun r => (h.2 r).mono hH⟩

theorem Only.call {a : A β} (h : H a) : (call a : Prog A ε β).Only H := by
  refine ⟨h, fun r => ?_⟩
  cases r <;> trivial

theorem Only.bind {p : Prog A ε α} {f : α → Prog A ε β} (hp : p.Only H) (hf : ∀ a, (f a).Only H) :
    (p.bind f).Only H := by
  induction p with
  | ret a => exact hf a
  | raise e => trivial
  | act a k ih => exact ⟨hp.1, fun r => ih r (hp.2 r)⟩

theorem Only.tryCatch {p : Prog A ε α} {f : ε → Prog A ε α} (hp : p.Only H)
    (hf : ∀ e, (f e).Only H) : (p.tryCatch f).Only H := by
  induction p with
  | ret a => trivial
  | raise e => exact hf e
  | act a k ih => exact ⟨hp.1, fun r => ih r (hp.2 r)⟩

theorem Only.runIf {c : Prop} [Decidable c] {p : Prog A ε Unit} (h : p.Only H) :
    (Prog.runIf c p).Only H := by
  unfold Prog.runIf
  split
  · exact h
  · trivial

theorem Only.forM {ι : Type} {f : ι → Prog A ε PUnit} (hf : ∀ x, (f x).Only H) (xs : List ι) :
    (xs.forM f).Only H := by
  induction xs with
  | nil => trivial
  | cons x xs ih => exact Only.bind (hf x) fun _ => ih

theorem Only.tryFinally {p : Prog A ε α} {q : Prog A ε Unit} (hp : p.Only H) (hq : q.Only H) :
    (p.tryFinally q).Only H := by
  refine Only.bind (Only.tryCatch (Only.bind hp fun _ => ?_) fun _ => ?_) fun out =>
    Only.bind hq fun _ => ?_
  · trivial
  · trivial
  · cases out <;> trivial

end Only

/-- How a program that has nothing left to do ended. -/
def outcome? : Prog A ε α → Option (Except ε α)
  | .ret a => some (.ok a)
  | .raise e => some (.error e)
  | .act _ _ => none

/-- The program that has ended with the given outcome. -/
def ended : Except ε α → Prog A ε α
  | .ok a => .ret a
  | .error e => .raise e

/-- No run of it returns. -/
def NeverReturns : Prog A ε α → Prop
  | .ret _ => False
  | .raise _ => True
  | .act _ k => ∀ r, (k r).NeverReturns

theorem NeverReturns.bind {f : α → Prog A ε β} (hf : ∀ a, (f a).NeverReturns) :
    ∀ p : Prog A ε α, (p.bind f).NeverReturns
  | .ret a => hf a
  | .raise _ => trivial
  | .act _ k => fun r => NeverReturns.bind hf (k r)

@[simp] theorem outcome?_ended (out : Except ε α) :
    (ended out : Prog A ε α).outcome? = some out := by
  cases out <;> rfl

theorem outcome?_eq_some {p : Prog A ε α} {out : Except ε α} :
    p.outcome? = some out ↔ p = ended out := by
  cases p <;> cases out <;> simp [outcome?, ended]

end Prog

/-- What an action does to the state when the outside makes choice `c`; `none` if `c` is no choice
for it. -/
structure Sem (A : Type → Type 1) (ε χ S : Type) where
  perform : χ → {β : Type} → A β → S → Option (Except ε β × S)

variable {A : Type → Type 1} {ε χ S α β : Type}

/-- Run a program against one choice an action, as far as `allow` permits; what is left of it, and
the state. -/
def Sem.play (sem : Sem A ε χ S) (allow : χ → {β : Type} → A β → S → Bool) :
    List χ → Prog A ε α → S → Option (Prog A ε α × S)
  | [], p, s => some (p, s)
  | c :: cs, .act a k, s =>
    if allow c a s then (sem.perform c a s).bind fun rs => sem.play allow cs (k rs.1) rs.2 else none
  | _ :: _, _, _ => none

/-- A fault model: which choices the outside may make, for which action, in which state. -/
abbrev Allow (A : Type → Type 1) (χ S : Type) := χ → {β : Type} → A β → S → Prop

/-- One action under a fault model. -/
def Sem.Next (sem : Sem A ε χ S) (ok : Allow A χ S) (s : S) (a : A β) (r : Except ε β) (s' : S) :
    Prop :=
  ∃ c, ok c a s ∧ sem.perform c a s = some (r, s')

/-- The runs of a program, stopped anywhere. -/
inductive Sem.Steps (sem : Sem A ε χ S) (ok : Allow A χ S) : Prog A ε α → S → Prog A ε α → S → Prop
  | refl {p s} : sem.Steps ok p s p s
  | step {β : Type} {a : A β} {k : Except ε β → Prog A ε α} {s r s₁ p' s'} :
      sem.Next ok s a r s₁ → sem.Steps ok (k r) s₁ p' s' → sem.Steps ok (.act a k) s p' s'

/-- The complete runs. -/
def Sem.Runs (sem : Sem A ε χ S) (ok : Allow A χ S) (p : Prog A ε α) (s : S) (out : Except ε α)
    (s' : S) : Prop :=
  sem.Steps ok p s (.ended out) s'

namespace Sem
variable {sem : Sem A ε χ S} {ok : Allow A χ S}

theorem Steps.trans {p p₁ p₂ : Prog A ε α} {s s₁ s₂ : S} (h : sem.Steps ok p s p₁ s₁)
    (h' : sem.Steps ok p₁ s₁ p₂ s₂) : sem.Steps ok p s p₂ s₂ := by
  induction h with
  | refl => exact h'
  | step hn _ ih => exact .step hn (ih h')

theorem Steps.bind {p p' : Prog A ε α} {s s' : S} (f : α → Prog A ε β)
    (h : sem.Steps ok p s p' s') : sem.Steps ok (p.bind f) s (p'.bind f) s' := by
  induction h with
  | refl => exact .refl
  | step hn _ ih => exact .step hn ih

theorem Steps.tryCatch {p p' : Prog A ε α} {s s' : S} (f : ε → Prog A ε α)
    (h : sem.Steps ok p s p' s') : sem.Steps ok (p.tryCatch f) s (p'.tryCatch f) s' := by
  induction h with
  | refl => exact .refl
  | step hn _ ih => exact .step hn ih

/-- What a stricter fault model allows. -/
theorem Steps.mono {ok' : Allow A χ S} (hok : ∀ c {γ : Type} (a : A γ) s, ok c a s → ok' c a s)
    {p p' : Prog A ε α} {s s' : S} (h : sem.Steps ok p s p' s') : sem.Steps ok' p s p' s' := by
  induction h with
  | refl => exact .refl
  | step hn _ ih =>
    obtain ⟨c, hc, hp⟩ := hn
    exact .step ⟨c, hok c _ _ hc, hp⟩ ih

theorem Runs.bind {p : Prog A ε α} {s s₁ : S} {a : α} {f : α → Prog A ε β} {out : Except ε β}
    {s' : S} (h : sem.Runs ok p s (.ok a) s₁) (h' : sem.Runs ok (f a) s₁ out s') :
    sem.Runs ok (p.bind f) s out s' :=
  (Steps.bind f h).trans h'

/-- A list of choices that the fault model allows is a run of the relation. -/
theorem Steps.of_play {allow : χ → {β : Type} → A β → S → Bool} :
    ∀ {cs : List χ} {p p' : Prog A ε α} {s s' : S},
    sem.play allow cs p s = some (p', s') →
      sem.Steps (fun c {_} a s => allow c a s = true) p s p' s'
  | [], p, p', s, s', h => by
    simp only [play, Option.some.injEq, Prod.mk.injEq] at h
    rw [← h.1, ← h.2]
    exact .refl
  | c :: cs, .act a k, p', s, s', h => by
    simp only [play] at h
    split at h
    · rename_i hok
      obtain ⟨⟨r, s₁⟩, hp, hr⟩ := Option.bind_eq_some_iff.1 h
      exact .step ⟨c, hok, hp⟩ (of_play hr)
    · simp at h
  | _ :: _, .ret _, _, _, _, h => by simp [play] at h
  | _ :: _, .raise _, _, _, _, h => by simp [play] at h

/-- The same, when the choices are known. -/
theorem Steps.of_play_mem {allow : χ → {β : Type} → A β → S → Bool} {ds : List χ} :
    ∀ {cs : List χ} {p p' : Prog A ε α} {s s' : S},
    cs ⊆ ds → sem.play allow cs p s = some (p', s') → sem.Steps (fun c {_} _ _ => c ∈ ds) p s p' s'
  | [], p, p', s, s', _, h => by
    simp only [play, Option.some.injEq, Prod.mk.injEq] at h
    rw [← h.1, ← h.2]
    exact .refl
  | c :: cs, .act a k, p', s, s', hsub, h => by
    simp only [play] at h
    split at h
    · obtain ⟨⟨r, s₁⟩, hp, hr⟩ := Option.bind_eq_some_iff.1 h
      obtain ⟨hc, hcs⟩ := List.cons_subset.1 hsub
      exact .step ⟨c, hc, hp⟩ (of_play_mem hcs hr)
    · simp at h
  | _ :: _, .ret _, _, _, _, _, h => by simp [play] at h
  | _ :: _, .raise _, _, _, _, _, h => by simp [play] at h

/-- A run of the relation is one list of choices. -/
theorem Steps.exists_play {allow : χ → {β : Type} → A β → S → Bool} {K : χ → Prop}
    (hok : ∀ c {β : Type} (a : A β) s, ok c a s → allow c a s = true ∧ K c) {p p' : Prog A ε α}
    {s s' : S} (h : sem.Steps ok p s p' s') :
    ∃ cs, (∀ c ∈ cs, K c) ∧ sem.play allow cs p s = some (p', s') := by
  induction h with
  | refl => exact ⟨[], by simp, rfl⟩
  | step hn _ ih =>
    obtain ⟨c, hc, hp⟩ := hn
    obtain ⟨cs, hcs, hplay⟩ := ih
    obtain ⟨hallow, hK⟩ := hok c _ _ hc
    refine ⟨c :: cs, fun d hd => ?_, ?_⟩
    · rcases List.mem_cons.1 hd with rfl | hd
      · exact hK
      · exact hcs d hd
    · simp [play, hallow, hp, hplay]

/-- A complete run of a program that begins with an action begins with a choice for it. -/
theorem play_act {allow : χ → {β : Type} → A β → S → Bool} {a : A β} {k : Except ε β → Prog A ε α}
    {out : Except ε α} {cs : List χ} {s s' : S}
    (h : sem.play allow cs (.act a k) s = some (.ended out, s')) :
    ∃ c cs' r s₁, cs = c :: cs' ∧ sem.perform c a s = some (r, s₁) ∧ sem.play allow cs' (k r) s₁ =
      some (.ended out, s') := by
  cases cs with
  | nil => cases out <;> simp [play, Prog.ended] at h
  | cons c cs =>
    simp only [play] at h
    split at h
    · obtain ⟨⟨r, s₁⟩, hp, hr⟩ := Option.bind_eq_some_iff.1 h
      exact ⟨c, cs, r, s₁, rfl, hp, hr⟩
    · simp at h

/-- A complete run goes through the end of its first part. -/
theorem play_bind {allow : χ → {β : Type} → A β → S → Bool} {f : α → Prog A ε β} {out : Except ε β}
    {s' : S} :
    ∀ {cs : List χ} {p : Prog A ε α} {s : S}, sem.play allow cs (p.bind f) s =
      some (.ended out, s') →
      ∃ cs₁ cs₂ r s₁, cs = cs₁ ++ cs₂ ∧ sem.play allow cs₁ p s = some (.ended r, s₁) ∧
        sem.play allow cs₂ ((Prog.ended r).bind f) s₁ = some (.ended out, s')
  | cs, .ret a, s, h => ⟨[], cs, .ok a, s, rfl, rfl, h⟩
  | cs, .raise e, s, h => ⟨[], cs, .error e, s, rfl, rfl, h⟩
  | [], .act _ _, _, h => by cases out <;> simp [play, Prog.ended] at h
  | c :: cs, .act a k, s, h => by
    simp only [Prog.act_bind, play] at h
    split at h
    · rename_i hok
      obtain ⟨⟨r, s₁⟩, hp, hr⟩ := Option.bind_eq_some_iff.1 h
      obtain ⟨cs₁, cs₂, r', s₂, rfl, h₁, h₂⟩ := play_bind hr
      exact ⟨c :: cs₁, cs₂, r', s₂, rfl, by simp [play, hok, hp, h₁], h₂⟩
    · simp at h

theorem play_tryCatch {allow : χ → {β : Type} → A β → S → Bool} {f : ε → Prog A ε α}
    {out : Except ε α} {s' : S} :
    ∀ {cs : List χ} {p : Prog A ε α} {s : S}, sem.play allow cs (p.tryCatch f) s =
      some (.ended out, s') →
      ∃ cs₁ cs₂ r s₁, cs = cs₁ ++ cs₂ ∧ sem.play allow cs₁ p s = some (.ended r, s₁) ∧
        sem.play allow cs₂ ((Prog.ended r).tryCatch f) s₁ = some (.ended out, s')
  | cs, .ret a, s, h => ⟨[], cs, .ok a, s, rfl, rfl, h⟩
  | cs, .raise e, s, h => ⟨[], cs, .error e, s, rfl, rfl, h⟩
  | [], .act _ _, _, h => by cases out <;> simp [play, Prog.ended, Prog.tryCatch] at h
  | c :: cs, .act a k, s, h => by
    simp only [Prog.tryCatch, play] at h
    split at h
    · rename_i hok
      obtain ⟨⟨r, s₁⟩, hp, hr⟩ := Option.bind_eq_some_iff.1 h
      obtain ⟨cs₁, cs₂, r', s₂, rfl, h₁, h₂⟩ := play_tryCatch hr
      exact ⟨c :: cs₁, cs₂, r', s₂, rfl, by simp [play, hok, hp, h₁], h₂⟩
    · simp at h

/-- A program that has ended takes no choice. -/
theorem play_ended {allow : χ → {β : Type} → A β → S → Bool} {r out : Except ε α} {cs : List χ}
    {s s' : S} (h : sem.play allow cs (Prog.ended r) s = some (.ended out, s')) :
    cs = [] ∧ out = r ∧ s' = s := by
  cases cs with
  | nil => cases r <;> cases out <;> simp_all [play, Prog.ended]
  | cons c cs => cases r <;> simp [play, Prog.ended] at h

end Sem

/-! ## Rely and guarantee

The state is split into a part the processes share, `σ`, and the process's own part, `κ`. -/

section Safe
variable {σ κ : Type}

/-- What a program may promise before an action, of the shared and its own state. -/
abbrev Guard (A : Type → Type 1) (σ κ : Type) := σ → κ → {β : Type} → A β → Prop

/-- Between two of its actions the others move the shared state along `R`. -/
def Safe (sem : Sem A ε χ (σ × κ)) (ok : Allow A χ (σ × κ)) (R : κ → σ → σ → Prop) (G : Guard A σ κ)
    (Q : Except ε α → σ → κ → Prop) : Prog A ε α → σ → κ → Prop
  | .ret a, w, l => ∀ w₁, R l w w₁ → Q (.ok a) w₁ l
  | .raise e, w, l => ∀ w₁, R l w w₁ → Q (.error e) w₁ l
  | .act a k, w, l => ∀ w₁, R l w w₁ → G w₁ l a ∧ ∀ r w₂ l₂, sem.Next ok (w₁, l) a r (w₂, l₂) →
      Safe sem ok R G Q (k r) w₂ l₂

/-- A rely is a preorder: doing nothing and doing two things are things the others may do. -/
structure IsRely (R : κ → σ → σ → Prop) : Prop where
  refl : ∀ l w, R l w w
  trans : ∀ {l w₁ w₂ w₃}, R l w₁ w₂ → R l w₂ w₃ → R l w₁ w₃

theorem isRely_eq : IsRely (fun (_ : κ) (w w' : σ) => w = w') where
  refl _ _ := rfl
  trans h h' := h.trans h'

variable {sem : Sem A ε χ (σ × κ)} {ok : Allow A χ (σ × κ)} {R : κ → σ → σ → Prop} {G : Guard A σ κ}

theorem Safe.stable (hR : IsRely R) {Q : Except ε α → σ → κ → Prop} {p : Prog A ε α} {w w' : σ}
    {l : κ} (h : Safe sem ok R G Q p w l) (hr : R l w w') : Safe sem ok R G Q p w' l := by
  cases p with
  | ret a => exact fun w₁ h₁ => h w₁ (hR.trans hr h₁)
  | raise e => exact fun w₁ h₁ => h w₁ (hR.trans hr h₁)
  | act a k => exact fun w₁ h₁ => h w₁ (hR.trans hr h₁)

theorem Safe.mono {Q Q' : Except ε α → σ → κ → Prop} (hQ : ∀ out w l, Q out w l → Q' out w l) :
    ∀ {p : Prog A ε α} {w : σ} {l : κ}, Safe sem ok R G Q p w l → Safe sem ok R G Q' p w l
  | .ret _, _, _, h => fun w₁ h₁ => hQ _ _ _ (h w₁ h₁)
  | .raise _, _, _, h => fun w₁ h₁ => hQ _ _ _ (h w₁ h₁)
  | .act _ _, _, _, h =>
    fun w₁ h₁ => ⟨(h w₁ h₁).1, fun r w₂ l₂ hn => ((h w₁ h₁).2 r w₂ l₂ hn).mono hQ⟩

/-- A stronger guard and a smaller rely are harder to keep. -/
theorem Safe.weaken {R' : κ → σ → σ → Prop} {G' : Guard A σ κ} {Q : Except ε α → σ → κ → Prop}
    (hR : ∀ l w w', R' l w w' → R l w w')
    (hG : ∀ w l {γ : Type} (a : A γ), G w l a → G' w l a) :
    ∀ {p : Prog A ε α} {w : σ} {l : κ}, Safe sem ok R G Q p w l → Safe sem ok R' G' Q p w l
  | .ret _, _, _, h => fun w₁ h₁ => h w₁ (hR _ _ _ h₁)
  | .raise _, _, _, h => fun w₁ h₁ => h w₁ (hR _ _ _ h₁)
  | .act _ _, _, _, h => fun w₁ h₁ =>
    ⟨hG _ _ _ (h w₁ (hR _ _ _ h₁)).1, fun r w₂ l₂ hn =>
      ((h w₁ (hR _ _ _ h₁)).2 r w₂ l₂ hn).weaken hR hG⟩

/-- Two guards are kept together if each is. -/
theorem Safe.and {G' : Guard A σ κ} {Q Q' : Except ε α → σ → κ → Prop} :
    ∀ {p : Prog A ε α} {w : σ} {l : κ},
    Safe sem ok R G Q p w l → Safe sem ok R G' Q' p w l →
      Safe sem ok R (fun w l {_} a => G w l a ∧ G' w l a)
        (fun out w l => Q out w l ∧ Q' out w l) p w l
  | .ret _, _, _, h, h' => fun w₁ h₁ => ⟨h w₁ h₁, h' w₁ h₁⟩
  | .raise _, _, _, h, h' => fun w₁ h₁ => ⟨h w₁ h₁, h' w₁ h₁⟩
  | .act _ _, _, _, h, h' => fun w₁ h₁ =>
    ⟨⟨(h w₁ h₁).1, (h' w₁ h₁).1⟩, fun r w₂ l₂ hn =>
      ((h w₁ h₁).2 r w₂ l₂ hn).and ((h' w₁ h₁).2 r w₂ l₂ hn)⟩

/-- The postcondition of the first of two programs. -/
def thenSafe (sem : Sem A ε χ (σ × κ)) (ok : Allow A χ (σ × κ)) (R : κ → σ → σ → Prop)
    (G : Guard A σ κ) (Q : Except ε β → σ → κ → Prop) (f : α → Prog A ε β) :
    Except ε α → σ → κ → Prop
  | .ok a, w, l => Safe sem ok R G Q (f a) w l
  | .error e, w, l => Q (.error e) w l

theorem Safe.bind (hR : IsRely R) {Q : Except ε β → σ → κ → Prop} {f : α → Prog A ε β} :
    ∀ {p : Prog A ε α} {w : σ} {l : κ}, Safe sem ok R G (thenSafe sem ok R G Q f) p w l →
      Safe sem ok R G Q (p.bind f) w l
  | .ret _, w, l, h => h w (hR.refl l w)
  | .raise _, _, _, h => h
  | .act _ _, _, _, h =>
    fun w₁ h₁ => ⟨(h w₁ h₁).1, fun r w₂ l₂ hn => ((h w₁ h₁).2 r w₂ l₂ hn).bind hR⟩

/-- The postcondition of the body of a `try`. -/
def catchSafe (sem : Sem A ε χ (σ × κ)) (ok : Allow A χ (σ × κ)) (R : κ → σ → σ → Prop)
    (G : Guard A σ κ) (Q : Except ε α → σ → κ → Prop) (f : ε → Prog A ε α) :
    Except ε α → σ → κ → Prop
  | .ok a, w, l => Q (.ok a) w l
  | .error e, w, l => Safe sem ok R G Q (f e) w l

theorem Safe.tryCatch (hR : IsRely R) {Q : Except ε α → σ → κ → Prop} {f : ε → Prog A ε α} :
    ∀ {p : Prog A ε α} {w : σ} {l : κ}, Safe sem ok R G (catchSafe sem ok R G Q f) p w l →
      Safe sem ok R G Q (p.tryCatch f) w l
  | .ret _, _, _, h => h
  | .raise _, w, l, h => h w (hR.refl l w)
  | .act _ _, _, _, h =>
    fun w₁ h₁ => ⟨(h w₁ h₁).1, fun r w₂ l₂ hn => ((h w₁ h₁).2 r w₂ l₂ hn).tryCatch hR⟩

/-- A postcondition that the others cannot break. -/
def StableQ (R : κ → σ → σ → Prop) (Q : Except ε α → σ → κ → Prop) : Prop :=
  ∀ out w l w₁, R l w w₁ → Q out w l → Q out w₁ l

theorem Safe.ret {Q : Except ε α → σ → κ → Prop} {a : α} {w : σ} {l : κ}
    (h : ∀ w₁, R l w w₁ → Q (.ok a) w₁ l) :
    Safe sem ok R G Q (.ret a) w l := h

theorem Safe.raise {Q : Except ε α → σ → κ → Prop} {e : ε} {w : σ} {l : κ}
    (h : ∀ w₁, R l w w₁ → Q (.error e) w₁ l) : Safe sem ok R G Q (.raise e : Prog A ε α) w l := h

theorem Safe.call {Q : Except ε β → σ → κ → Prop} {a : A β} {w : σ} {l : κ}
    (h : ∀ w₁, R l w w₁ → G w₁ l a ∧ ∀ r w₂ l₂, sem.Next ok (w₁, l) a r (w₂, l₂) →
      ∀ w₃, R l₂ w₂ w₃ → Q r w₃ l₂) : Safe sem ok R G Q (.call a) w l := by
  intro w₁ h₁
  refine ⟨(h w₁ h₁).1, fun r w₂ l₂ hn => ?_⟩
  cases r with
  | ok b => exact fun w₃ h₃ => (h w₁ h₁).2 _ _ _ hn w₃ h₃
  | error e => exact fun w₃ h₃ => (h w₁ h₁).2 _ _ _ hn w₃ h₃

theorem StableQ.thenSafe (hR : IsRely R) {Q : Except ε β → σ → κ → Prop} (hQ : StableQ R Q)
    (f : α → Prog A ε β) : StableQ R (thenSafe sem ok R G Q f) := by
  intro out w l w₁ h₁ h
  cases out with
  | ok a => exact Safe.stable hR h h₁
  | error e => exact hQ _ _ _ _ h₁ h

theorem StableQ.catchSafe (hR : IsRely R) {Q : Except ε α → σ → κ → Prop} (hQ : StableQ R Q)
    (f : ε → Prog A ε α) : StableQ R (catchSafe sem ok R G Q f) := by
  intro out w l w₁ h₁ h
  cases out with
  | ok a => exact hQ _ _ _ _ h₁ h
  | error e => exact Safe.stable hR h h₁

/-- A bare call whose postcondition the others cannot break. -/
theorem Safe.callStable {Q : Except ε β → σ → κ → Prop} (hQ : StableQ R Q) {a : A β} {w : σ} {l : κ}
    (h : ∀ w₁, R l w w₁ → G w₁ l a ∧ ∀ r w₂ l₂, sem.Next ok (w₁, l) a r (w₂, l₂) → Q r w₂ l₂) :
    Safe sem ok R G Q (.call a) w l :=
  Safe.call fun w₁ h₁ =>
    ⟨(h w₁ h₁).1, fun r w₂ l₂ hn _ h₃ => hQ _ _ _ _ h₃ ((h w₁ h₁).2 r w₂ l₂ hn)⟩

theorem Safe.retStable {Q : Except ε α → σ → κ → Prop} (hQ : StableQ R Q) {a : α} {w : σ} {l : κ}
    (h : Q (.ok a) w l) : Safe sem ok R G Q (.ret a) w l := fun w₁ h₁ => hQ _ _ _ w₁ h₁ h

theorem Safe.raiseStable {Q : Except ε α → σ → κ → Prop} (hQ : StableQ R Q) {e : ε} {w : σ} {l : κ}
    (h : Q (.error e) w l) : Safe sem ok R G Q (.raise e : Prog A ε α) w l :=
  fun w₁ h₁ => hQ _ _ _ w₁ h₁ h

/-- A bare call and what follows it. -/
theorem Safe.callThen (hR : IsRely R) {Q : Except ε β → σ → κ → Prop} (hQ : StableQ R Q) {a : A α}
    {f : α → Prog A ε β} {w : σ} {l : κ}
    (h : ∀ w₁, R l w w₁ → G w₁ l a ∧ ∀ r w₂ l₂, sem.Next ok (w₁, l) a r (w₂, l₂) →
      Effects.thenSafe sem ok R G Q f r w₂ l₂) : Safe sem ok R G Q ((Prog.call a).bind f) w l :=
  Safe.bind hR (Safe.callStable (StableQ.thenSafe hR hQ f) h)

/-- A postcondition in two parts, for a result and for an exception. -/
def post (K : α → σ → κ → Prop) (E : ε → σ → κ → Prop) : Except ε α → σ → κ → Prop
  | .ok a => K a
  | .error e => E e

theorem StableQ.post {K : α → σ → κ → Prop} {E : ε → σ → κ → Prop}
    (hK : ∀ a w l w₁, R l w w₁ → K a w l → K a w₁ l)
    (hE : ∀ e w l w₁, R l w w₁ → E e w l → E e w₁ l) : StableQ R (post K E) := by
  intro out w l w₁ h₁ h
  cases out with
  | ok a => exact hK a w l w₁ h₁ h
  | error e => exact hE e w l w₁ h₁ h

/-- Two programs in sequence, with the same handling of exceptions. -/
theorem Safe.seq (hR : IsRely R) {K : α → σ → κ → Prop} {Q : Except ε β → σ → κ → Prop}
    {p : Prog A ε α} {f : α → Prog A ε β} {w : σ} {l : κ}
    (hp : Safe sem ok R G (post K fun e => Q (.error e)) p w l)
    (hf : ∀ a w l, K a w l → Safe sem ok R G Q (f a) w l) : Safe sem ok R G Q (p.bind f) w l := by
  refine Safe.bind hR (hp.mono fun out w₁ l₁ hq => ?_)
  cases out with
  | ok a => exact hf a w₁ l₁ hq
  | error e => exact hq

/-- A program and its handler. -/
theorem Safe.handle (hR : IsRely R) {E : ε → σ → κ → Prop} {Q : Except ε α → σ → κ → Prop}
    {p : Prog A ε α} {f : ε → Prog A ε α} {w : σ} {l : κ}
    (hp : Safe sem ok R G (post (fun a => Q (.ok a)) E) p w l)
    (hf : ∀ e w l, E e w l → Safe sem ok R G Q (f e) w l) :
    Safe sem ok R G Q (p.tryCatch f) w l := by
  refine Safe.tryCatch hR (hp.mono fun out w₁ l₁ hq => ?_)
  cases out with
  | ok a => exact hq
  | error e => exact hf e w₁ l₁ hq

/-- A program with a `finally`: `q` keeps what either way out of `p` leaves to keep. -/
theorem Safe.tryFinally (hR : IsRely R) {K : α → σ → κ → Prop} {E : ε → σ → κ → Prop}
    {Q : Except ε α → σ → κ → Prop} (hQ : StableQ R Q) {p : Prog A ε α} {q : Prog A ε Unit} {w : σ}
    {l : κ} (hK : ∀ a w l w₁, R l w w₁ → K a w l → K a w₁ l)
    (hE : ∀ e w l w₁, R l w w₁ → E e w l → E e w₁ l) (hp : Safe sem ok R G (post K E) p w l)
    (hq : ∀ a w l, K a w l →
      Safe sem ok R G (post (fun _ => Q (.ok a)) fun e => Q (.error e)) q w l)
    (hq' : ∀ e w l, E e w l →
      Safe sem ok R G (post (fun _ => Q (.error e)) fun e' => Q (.error e')) q w l) :
    Safe sem ok R G Q (p.tryFinally q) w l := by
  unfold Prog.tryFinally
  refine Safe.seq hR (K := fun out => match out with | .ok a => K a | .error e => E e) ?_ ?_
  · refine Safe.handle hR (E := E) (Safe.bind hR (hp.mono fun out w₁ l₁ h => ?_)) fun e w₁ l₁ h =>
      ?_
    · cases out with
      | ok a => exact fun w₂ h₂ => hK a w₁ l₁ w₂ h₂ h
      | error e => exact h
    · exact Safe.ret fun w₂ h₂ => hE e w₁ l₁ w₂ h₂ h
  · intro out w₁ l₁ h
    cases out with
    | ok a => exact Safe.seq hR (hq a w₁ l₁ h) fun _ w₂ l₂ h₂ => Safe.retStable hQ h₂
    | error e => exact Safe.seq hR (hq' e w₁ l₁ h) fun _ w₂ l₂ h₂ => Safe.raiseStable hQ h₂

/-- A loop over a list; the invariant may speak of the elements already done. -/
theorem Safe.forM (hR : IsRely R) {ι : Type} {I : List ι → σ → κ → Prop} {E : ε → σ → κ → Prop}
    (hI : ∀ pre w l w₁, R l w w₁ → I pre w l → I pre w₁ l) {f : ι → Prog A ε PUnit} {xs : List ι}
    (hf : ∀ pre x suf, xs = pre ++ x :: suf → ∀ w l, I pre w l →
      Safe sem ok R G (post (fun _ => I (pre ++ [x])) E) (f x) w l) {w : σ} {l : κ} (h : I [] w l) :
    Safe sem ok R G (post (fun _ => I xs) E) (xs.forM f) w l := by
  have aux : ∀ (suf pre : List ι), xs = pre ++ suf → ∀ w l, I pre w l →
      Safe sem ok R G (post (fun _ => I xs) E) (suf.forM f) w l := by
    intro suf
    induction suf with
    | nil =>
      intro pre hxs w l h w₁ h₁
      rw [List.append_nil] at hxs
      rw [← hxs] at h
      exact hI xs w l w₁ h₁ h
    | cons x suf ih =>
      intro pre hxs w l h
      change Safe sem ok R G _ ((f x).bind fun _ => suf.forM f) w l
      refine Safe.seq hR (hf pre x suf hxs w l h) fun _ w₁ l₁ h₁ => ?_
      exact ih (pre ++ [x]) (by simp [hxs]) w₁ l₁ h₁
  exact aux xs [] rfl w l h

/-- Where nothing is asked for, any program will do. -/
theorem Safe.any (hG : ∀ w l {γ : Type} (a : A γ), G w l a) {Q : Except ε α → σ → κ → Prop}
    (hQ : ∀ out w l, Q out w l) :
    ∀ (p : Prog A ε α) (w : σ) (l : κ), Safe sem ok R G Q p w l
  | .ret _, _, _ => fun _ _ => hQ _ _ _
  | .raise _, _, _ => fun _ _ => hQ _ _ _
  | .act a k, _, _ => fun _ _ => ⟨hG _ _ a, fun r _ _ _ => Safe.any hG hQ (k r) _ _⟩

/-- Where nothing is asked of exceptions, a program that cannot return will do. -/
theorem Safe.never (hG : ∀ w l {γ : Type} (a : A γ), G w l a) {Q : Except ε α → σ → κ → Prop}
    (hQ : ∀ e w l, Q (.error e) w l) :
    ∀ {p : Prog A ε α}, p.NeverReturns → ∀ (w : σ) (l : κ), Safe sem ok R G Q p w l
  | .ret _, h, _, _ => h.elim
  | .raise _, _, _, _ => fun _ _ => hQ _ _ _
  | .act a _, h, _, _ => fun _ _ => ⟨hG _ _ a, fun r _ _ _ => Safe.never hG hQ (h r) _ _⟩

/-- A program that asks only for actions that keep the guard and an invariant. -/
theorem Safe.only {H : {β : Type} → A β → Prop} {I : σ → κ → Prop}
    (hI : ∀ l w w', R l w w' → I w l → I w' l)
    (hact : ∀ {β : Type} (a : A β) (w : σ) (l : κ), H a → I w l → G w l a ∧ ∀ r w' l',
      sem.Next ok (w, l) a r (w', l') → I w' l') :
    ∀ {p : Prog A ε α} {w : σ} {l : κ}, p.Only H → I w l → Safe sem ok R G (fun _ => I) p w l
  | .ret _, w, l, _, h => fun w₁ h₁ => hI l w w₁ h₁ h
  | .raise _, w, l, _, h => fun w₁ h₁ => hI l w w₁ h₁ h
  | .act a k, w, l, hp, h => fun w₁ h₁ => by
    obtain ⟨hg, hnext⟩ := hact a w₁ l hp.1 (hI l w w₁ h₁ h)
    exact ⟨hg, fun r w₂ l₂ hn => Safe.only hI hact (hp.2 r) (hnext r w₂ l₂ hn)⟩

/-- If the guard says that an action can proceed, the program has a complete run. -/
theorem Safe.complete (hR : IsRely R)
    (hG : ∀ w l {γ : Type} (a : A γ), G w l a → ∃ r w' l', sem.Next ok (w, l) a r (w', l'))
    {Q : Except ε α → σ → κ → Prop} : ∀ {p : Prog A ε α} {w : σ} {l : κ}, Safe sem ok R G Q p w l →
      ∃ out s', sem.Runs ok p (w, l) out s'
  | .ret a, w, l, _ => ⟨.ok a, (w, l), .refl⟩
  | .raise e, w, l, _ => ⟨.error e, (w, l), .refl⟩
  | .act a k, w, l, h => by
    obtain ⟨hg, hk⟩ := h w (hR.refl l w)
    obtain ⟨r, w', l', hn⟩ := hG w l a hg
    obtain ⟨out, s', hs⟩ := Safe.complete hR hG (hk r w' l' hn)
    exact ⟨out, s', .step hn hs⟩

end Safe

/-- With nobody else around, a safe program's runs meet its guard at each action and end in `Q`. -/
theorem Safe.steps {σ κ : Type} {sem : Sem A ε χ (σ × κ)} {ok : Allow A χ (σ × κ)}
    {R : κ → σ → σ → Prop} {G : Guard A σ κ} (hR : IsRely R) {Q : Except ε α → σ → κ → Prop}
    {p p' : Prog A ε α} {s s' : σ × κ} (h : Safe sem ok R G Q p s.1 s.2)
    (hs : sem.Steps ok p s p' s') : Safe sem ok R G Q p' s'.1 s'.2 := by
  induction hs with
  | refl => exact h
  | step hn _ ih => exact ih ((h _ (hR.refl _ _)).2 _ _ _ hn)

theorem Safe.runs {σ κ : Type} {sem : Sem A ε χ (σ × κ)} {ok : Allow A χ (σ × κ)}
    {R : κ → σ → σ → Prop} {G : Guard A σ κ} (hR : IsRely R) {Q : Except ε α → σ → κ → Prop}
    {p : Prog A ε α} {s s' : σ × κ} {out : Except ε α} (h : Safe sem ok R G Q p s.1 s.2)
    (hs : sem.Runs ok p s out s') : Q out s'.1 s'.2 := by
  have := Safe.steps hR h hs
  cases out with
  | ok a => exact this _ (hR.refl _ _)
  | error e => exact this _ (hR.refl _ _)

end Effects
