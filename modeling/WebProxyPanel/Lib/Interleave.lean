import Mathlib.Logic.Function.Basic
import Mathlib.Logic.Relation
import WebProxyPanel.Lib.Prog
/-!
# Processes side by side

A configuration is the shared state, each process's own state, and what each process is running. A
step is one action of one process, or the start, the end, or the stop of one. `invariant` is the
composition rule: if every operation is `Safe` from an idle state, and every guarded action keeps a
global invariant `J` and is within the rely of the others, then both hold in every reachable
configuration. `run` executes one schedule.
-/

namespace Effects

variable {ι Op : Type} {A : Type → Type 1} {ε χ σ κ : Type}

/-- Operations as programs, and what is left of the state when a process stops between two of its
steps. -/
structure System (Op : Type) (A : Type → Type 1) (ε χ σ κ : Type) where
  sem : Sem A ε χ (σ × κ)
  program : Op → Prog A ε Unit
  stop : σ × κ → σ × κ

structure Configuration (ι Op : Type) (A : Type → Type 1) (ε σ κ : Type) where
  shared : σ
  own : ι → κ
  /-- The operation, and what is left of it. -/
  running : ι → Option (Op × Prog A ε Unit)

namespace System
variable [DecidableEq ι]

/-- One step of the process `i`. -/
inductive Step (sys : System Op A ε χ σ κ) (ok : Allow A χ (σ × κ)) (mayStop : Prop) (i : ι) :
    Configuration ι Op A ε σ κ → Configuration ι Op A ε σ κ → Prop
  | start {c : Configuration ι Op A ε σ κ} (op : Op) : c.running i = none →
      Step sys ok mayStop i c ⟨c.shared, c.own,
        Function.update c.running i (some (op, sys.program op))⟩
  | act {c : Configuration ι Op A ε σ κ} {op : Op} {β : Type} {a : A β}
      {k : Except ε β → Prog A ε Unit}
      {r : Except ε β} {w : σ} {l : κ} : c.running i = some (op, .act a k) →
      sys.sem.Next ok (c.shared, c.own i) a r (w, l) →
      Step sys ok mayStop i c ⟨w, Function.update c.own i l,
        Function.update c.running i (some (op, k r))⟩
  | finish {c : Configuration ι Op A ε σ κ} {op : Op} {out : Except ε Unit} : c.running i = some
      (op, .ended out) → Step sys ok mayStop i c ⟨c.shared, c.own, Function.update c.running i none⟩
  | stop {c : Configuration ι Op A ε σ κ} : mayStop →
      Step sys ok mayStop i c ⟨(sys.stop (c.shared, c.own i)).1,
        Function.update c.own i (sys.stop (c.shared, c.own i)).2, Function.update c.running i none⟩

/-- The configurations that some order of steps of some processes leads to. -/
def Reachable (sys : System Op A ε χ σ κ) (ok : Allow A χ (σ × κ)) (mayStop : Prop) :
    Configuration ι Op A ε σ κ → Configuration ι Op A ε σ κ → Prop :=
  Relation.ReflTransGen fun c c' => ∃ i, sys.Step ok mayStop i c c'

/-- Since the process `i` has started `op`: the shared states before and after each of its own
steps. -/
inductive During (sys : System Op A ε χ σ κ) (ok : Allow A χ (σ × κ)) (mayStop : Prop) (i : ι)
    (op : Op) (c₀ : Configuration ι Op A ε σ κ) : List (σ × σ) → Configuration ι Op A ε σ κ → Prop
  | start : c₀.running i = none →
      During sys ok mayStop i op c₀ [] ⟨c₀.shared, c₀.own,
        Function.update c₀.running i (some (op, sys.program op))⟩
  | own {ws : List (σ × σ)} {c c' : Configuration ι Op A ε σ κ} :
      During sys ok mayStop i op c₀ ws c →
      sys.Step ok mayStop i c c' → c'.running i ≠ none →
        During sys ok mayStop i op c₀ (ws ++ [(c.shared, c'.shared)]) c'
  | other {ws : List (σ × σ)} {c c' : Configuration ι Op A ε σ κ} {j : ι} :
      During sys ok mayStop i op c₀ ws c → j ≠ i →
      sys.Step ok mayStop j c c' → During sys ok mayStop i op c₀ ws c'

/-- Nothing is running. -/
def Quiet (c : Configuration ι Op A ε σ κ) : Prop := ∀ i, c.running i = none

section Invariant
variable {sys : System Op A ε χ σ κ} {ok : Allow A χ (σ × κ)} {mayStop : Prop}
variable {R : κ → σ → σ → Prop} {G : Op → Guard A σ κ} {Idle : σ → κ → Prop}
  {J : σ → (ι → κ) → Prop}

/-- What the composition rule keeps of one process. -/
def Sound (sys : System Op A ε χ σ κ) (ok : Allow A χ (σ × κ)) (R : κ → σ → σ → Prop)
    (G : Op → Guard A σ κ) (Idle : σ → κ → Prop) (w : σ) (l : κ) :
    Option (Op × Prog A ε Unit) → Prop
  | none => Idle w l
  | some (op, p) => Safe sys.sem ok R (G op) (fun _ => Idle) p w l

/-- What the composition rule asks for. -/
structure Composes (sys : System Op A ε χ σ κ) (ok : Allow A χ (σ × κ)) (mayStop : Prop)
    (R : κ → σ → σ → Prop) (G : Op → Guard A σ κ) (Idle : σ → κ → Prop) (J : σ → (ι → κ) → Prop) :
    Prop where
  rely : IsRely R
  idle : ∀ w w' l, R l w w' → Idle w l → Idle w' l
  safe : ∀ op w l, Idle w l → Safe sys.sem ok R (G op) (fun _ => Idle) (sys.program op) w l
  act : ∀ (w : σ) (ls : ι → κ) (i : ι) (op : Op) {β : Type} (a : A β) (r : Except ε β)
    (w' : σ) (l' : κ), J w ls → G op w (ls i) a → sys.sem.Next ok (w, ls i) a r (w', l') →
      J w' (Function.update ls i l') ∧ ∀ j, j ≠ i → R (ls j) w w'
  stop : mayStop → ∀ (w : σ) (ls : ι → κ) (i : ι), J w ls →
    J (sys.stop (w, ls i)).1 (Function.update ls i (sys.stop (w, ls i)).2) ∧
      (∀ j, j ≠ i → R (ls j) w (sys.stop (w, ls i)).1) ∧
      Idle (sys.stop (w, ls i)).1 (sys.stop (w, ls i)).2

structure Good (sys : System Op A ε χ σ κ) (ok : Allow A χ (σ × κ)) (R : κ → σ → σ → Prop)
    (G : Op → Guard A σ κ) (Idle : σ → κ → Prop) (J : σ → (ι → κ) → Prop)
    (c : Configuration ι Op A ε σ κ) : Prop where
  global : J c.shared c.own
  sound : ∀ i, Sound sys ok R G Idle c.shared (c.own i) (c.running i)

omit [DecidableEq ι] in
theorem Sound.stable (h : IsRely R) (hidle : ∀ w w' l, R l w w' → Idle w l → Idle w' l) {w w' : σ}
    {l : κ} {p : Option (Op × Prog A ε Unit)} (hs : Sound sys ok R G Idle w l p) (hr : R l w w') :
    Sound sys ok R G Idle w' l p := by
  cases p with
  | none => exact hidle w w' l hr hs
  | some p => exact Safe.stable h hs hr

/-- One process changes; the others see a step within their rely. -/
theorem sound_update (h : IsRely R) (hidle : ∀ w w' l, R l w w' → Idle w l → Idle w' l)
    {c : Configuration ι Op A ε σ κ}
    (hc : ∀ i, Sound sys ok R G Idle c.shared (c.own i) (c.running i)) {i : ι} {w : σ} {l : κ}
    {p : Option (Op × Prog A ε Unit)} (hi : Sound sys ok R G Idle w l p)
    (hothers : ∀ j, j ≠ i → R (c.own j) c.shared w) (j : ι) :
    Sound sys ok R G Idle w (Function.update c.own i l j) (Function.update c.running i p j) := by
  by_cases hj : j = i
  · subst hj
    rw [Function.update_self, Function.update_self]
    exact hi
  · rw [Function.update_of_ne hj, Function.update_of_ne hj]
    exact (hc j).stable h hidle (hothers j hj)

theorem Good.step (hcomp : Composes sys ok mayStop R G Idle J) {c c' : Configuration ι Op A ε σ κ}
    {i : ι} (h : Good sys ok R G Idle J c) (hs : sys.Step ok mayStop i c c') :
    Good sys ok R G Idle J c' := by
  have hidle := hcomp.idle
  cases hs with
  | start op hn =>
    refine ⟨h.global, fun j => ?_⟩
    have hi := h.sound i
    rw [hn] at hi
    have := sound_update hcomp.rely hidle h.sound (i := i) (p := some (op, sys.program op))
      (hcomp.safe op _ _ hi) (fun j _ => hcomp.rely.refl _ _) j
    rw [Function.update_eq_self] at this
    exact this
  | act hr hn =>
    have hi := h.sound i
    rw [hr] at hi
    obtain ⟨hg, hk⟩ := hi _ (hcomp.rely.refl _ _)
    obtain ⟨hJ, hothers⟩ := hcomp.act _ _ _ _ _ _ _ _ h.global hg hn
    exact ⟨hJ, sound_update hcomp.rely hidle h.sound (hk _ _ _ hn) hothers⟩
  | @finish op out hr =>
    refine ⟨h.global, fun j => ?_⟩
    have hi := h.sound i
    rw [hr] at hi
    have hend : Idle c.shared (c.own i) := by
      cases out with
      | ok a => exact hi _ (hcomp.rely.refl _ _)
      | error e => exact hi _ (hcomp.rely.refl _ _)
    have := sound_update hcomp.rely hidle h.sound (i := i) (p := none) hend
      (fun j _ => hcomp.rely.refl _ _) j
    rw [Function.update_eq_self] at this
    exact this
  | stop hm =>
    obtain ⟨hJ, hothers, hend⟩ := hcomp.stop hm c.shared c.own i h.global
    exact ⟨hJ, sound_update hcomp.rely hidle h.sound (p := none) hend hothers⟩

/-- The composition rule. -/
theorem invariant (hcomp : Composes sys ok mayStop R G Idle J) {c c' : Configuration ι Op A ε σ κ}
    (h : Good sys ok R G Idle J c) (hr : sys.Reachable ok mayStop c c') :
    Good sys ok R G Idle J c' := by
  induction hr with
  | refl => exact h
  | tail _ hs ih =>
    obtain ⟨i, hs⟩ := hs
    exact ih.step hcomp hs

omit [DecidableEq ι] in
/-- A process that is about to act has kept its guard. -/
theorem Good.guard (hR : IsRely R) {c : Configuration ι Op A ε σ κ} (h : Good sys ok R G Idle J c)
    {i : ι} {op : Op} {β : Type} {a : A β} {k : Except ε β → Prog A ε Unit}
    (hr : c.running i = some (op, .act a k)) : G op c.shared (c.own i) a := by
  have hi := h.sound i
  rw [hr] at hi
  exact (hi _ (hR.refl _ _)).1

/-- To a process, a step of another one is within its rely. -/
theorem Good.other (hcomp : Composes sys ok mayStop R G Idle J) {c c' : Configuration ι Op A ε σ κ}
    {i j : ι} (h : Good sys ok R G Idle J c) (hj : j ≠ i) (hs : sys.Step ok mayStop j c c') :
    R (c.own i) c.shared c'.shared ∧ c'.own i = c.own i ∧ c'.running i = c.running i := by
  have hupd : ∀ {γ : Type 1} (f : ι → γ) x, Function.update f j x i = f i :=
    fun f x => Function.update_of_ne hj.symm x f
  have hupd' : ∀ {γ : Type} (f : ι → γ) x, Function.update f j x i = f i :=
    fun f x => Function.update_of_ne hj.symm x f
  cases hs with
  | start => exact ⟨hcomp.rely.refl _ _, rfl, hupd _ _⟩
  | act hr hn =>
    have hg := h.guard hcomp.rely hr
    exact ⟨(hcomp.act _ _ _ _ _ _ _ _ h.global hg hn).2 i hj.symm, hupd' _ _, hupd _ _⟩
  | finish => exact ⟨hcomp.rely.refl _ _, rfl, hupd _ _⟩
  | stop hm => exact ⟨(hcomp.stop hm _ _ _ h.global).2.1 i hj.symm, hupd' _ _, hupd _ _⟩

/-- Since a process has started an operation, what is left of it is safe for any postcondition that
the operation was safe for. -/
theorem During.safe (hcomp : Composes sys ok mayStop R G Idle J) {c₀ c : Configuration ι Op A ε σ κ}
    {i : ι} {op : Op} {ws : List (σ × σ)} {Q : Except ε Unit → σ → κ → Prop}
    (h₀ : Good sys ok R G Idle J c₀)
    (hsafe : Safe sys.sem ok R (G op) Q (sys.program op) c₀.shared (c₀.own i))
    (hd : During sys ok mayStop i op c₀ ws c) :
    Good sys ok R G Idle J c ∧ ∃ p, c.running i = some (op, p) ∧
      Safe sys.sem ok R (G op) Q p c.shared (c.own i) := by
  induction hd with
  | start hn => exact ⟨h₀.step hcomp (Step.start op hn), _, Function.update_self .., hsafe⟩
  | own _ hs hne ih =>
    obtain ⟨hgood, p, hp, hq⟩ := ih
    refine ⟨hgood.step hcomp hs, ?_⟩
    cases hs with
    | start op' hn => exact absurd (hp.symm.trans hn) (by simp)
    | @act op' β a k r w l hr hn =>
      rw [hp, Option.some.injEq, Prod.mk.injEq] at hr
      obtain ⟨rfl, rfl⟩ := hr
      refine ⟨k r, Function.update_self .., ?_⟩
      simp only [Function.update_self]
      exact (hq _ (hcomp.rely.refl _ _)).2 _ _ _ hn
    | finish => exact absurd (Function.update_self ..) hne
    | stop => exact absurd (Function.update_self ..) hne
  | other _ hj hs ih =>
    obtain ⟨hgood, p, hp, hq⟩ := ih
    obtain ⟨hr, hown, hrun⟩ := hgood.other hcomp hj hs
    refine ⟨hgood.step hcomp hs, p, hrun.trans hp, ?_⟩
    rw [hown]
    exact hq.stable hcomp.rely hr

/-! ### Runs that come to an end -/

/-- Only what has been started is running. -/
theorem listed_running {c c' : Configuration ι Op A ε σ κ} (hr : sys.Reachable ok mayStop c c')
    (h : ∃ js : List ι, ∀ j, j ∉ js → c.running j = none) :
    ∃ js : List ι, ∀ j, j ∉ js → c'.running j = none := by
  induction hr with
  | refl => exact h
  | @tail c₁ c₂ _ hs ih =>
    obtain ⟨i, hs⟩ := hs
    obtain ⟨js, hjs⟩ := ih
    refine ⟨i :: js, fun j hj => ?_⟩
    rw [List.mem_cons, not_or] at hj
    obtain ⟨hji, hj⟩ := hj
    cases hs with
    | start | act | finish | stop => exact (Function.update_of_ne hji ..).trans (hjs j hj)

/-- What stays the same while one process goes on. -/
structure Aside (i : ι) (c c' : Configuration ι Op A ε σ κ) : Prop where
  own : ∀ j, j ≠ i → c'.own j = c.own j
  running : ∀ j, j ≠ i → c'.running j = c.running j

omit [DecidableEq ι] in
theorem Aside.refl (i : ι) (c : Configuration ι Op A ε σ κ) : Aside i c c :=
  ⟨fun _ _ => rfl, fun _ _ => rfl⟩

omit [DecidableEq ι] in
theorem Aside.trans {i : ι} {c₁ c₂ c₃ : Configuration ι Op A ε σ κ} (h : Aside i c₁ c₂)
    (h' : Aside i c₂ c₃) : Aside i c₁ c₃ :=
  ⟨fun j hj => (h'.own j hj).trans (h.own j hj), fun j hj =>
    (h'.running j hj).trans (h.running j hj)⟩

/-- With fewer outcomes, and without stops, the same steps and more can be taken. -/
theorem Step.mono {ok' : Allow A χ (σ × κ)} {mayStop' : Prop}
    (hok : ∀ c {β : Type} (a : A β) s, ok c a s → ok' c a s) (hstop : mayStop → mayStop') {i : ι}
    {c c' : Configuration ι Op A ε σ κ} (hs : sys.Step ok mayStop i c c') :
    sys.Step ok' mayStop' i c c' := by
  cases hs with
  | start op hn => exact .start op hn
  | act hr hn =>
    obtain ⟨ch, hc, hp⟩ := hn
    exact .act hr ⟨ch, hok _ _ _ hc, hp⟩
  | finish hr => exact .finish hr
  | stop hm => exact .stop (hstop hm)

theorem Reachable.mono {ok' : Allow A χ (σ × κ)} {mayStop' : Prop}
    (hok : ∀ c {β : Type} (a : A β) s, ok c a s → ok' c a s) (hstop : mayStop → mayStop')
    {c c' : Configuration ι Op A ε σ κ} (hr : sys.Reachable ok mayStop c c') :
    sys.Reachable ok' mayStop' c c' := by
  induction hr with
  | refl => exact .refl
  | tail _ hs ih =>
    obtain ⟨i, hs⟩ := hs
    exact ih.tail ⟨i, hs.mono hok hstop⟩

/-- A process goes on by itself, with outcomes that satisfy `ok'`, until it has come as far as `Far`
or to the end of its operation, if it can take each of its steps while `Clear`, and remains so. -/
theorem Good.advance {ok' : Allow A χ (σ × κ)}
    (hok : ∀ c {β : Type} (a : A β) s, ok' c a s → ok c a s)
    (hcomp : Composes sys ok mayStop R G Idle J) {i : ι} (Clear : σ → (ι → κ) → Prop)
    (Far : κ → Prop)
    (hcan : ∀ (w : σ) (ls : ι → κ) (op : Op) {β : Type} (a : A β), J w ls → Clear w ls →
      ¬ Far (ls i) → G op w (ls i) a → ∃ r w' l', sys.sem.Next ok' (w, ls i) a r (w', l') ∧
        Clear w' (Function.update ls i l')) :
    ∀ {p : Prog A ε Unit} {op : Op} {c : Configuration ι Op A ε σ κ}, Good sys ok R G Idle J c →
      Clear c.shared c.own →
      c.running i = some (op, p) → ∃ c', sys.Reachable ok' False c c' ∧ Good sys ok R G Idle J c' ∧
        Aside i c c' ∧
        Clear c'.shared c'.own ∧ (c'.running i = none ∨ Far (c'.own i))
  | .act a k, op, c, h, hclear, hr => by
    by_cases hfar : Far (c.own i)
    · exact ⟨c, .refl, h, .refl i c, hclear, Or.inr hfar⟩
    · obtain ⟨r, w', l', hn, hclear'⟩ :=
        hcan c.shared c.own op a h.global hclear hfar (h.guard hcomp.rely hr)
      have hs : sys.Step ok' False i c ⟨w', Function.update c.own i l',
          Function.update c.running i (some (op, k r))⟩ := .act hr hn
      obtain ⟨c', hreach, hgood, haside, hc', hend⟩ :=
        Good.advance hok hcomp Clear Far hcan (h.step hcomp (hs.mono hok False.elim)) hclear'
          (Function.update_self ..)
      have hown : Aside i c ⟨w', Function.update c.own i l',
          Function.update c.running i (some (op, k r))⟩ :=
        ⟨fun j hj => Function.update_of_ne hj .., fun j hj => Function.update_of_ne hj ..⟩
      exact ⟨c', .head ⟨i, hs⟩ hreach, hgood, hown.trans haside, hc', hend⟩
  | .ret a, op, c, h, hclear, hr => by
    have hs : sys.Step ok' False i c ⟨c.shared, c.own, Function.update c.running i none⟩ :=
      .finish (show c.running i = some (op, .ended (.ok a)) from hr)
    exact ⟨_, .single ⟨i, hs⟩, h.step hcomp (hs.mono hok False.elim),
      ⟨fun _ _ => rfl, fun j hj => Function.update_of_ne hj ..⟩, hclear,
      Or.inl (Function.update_self ..)⟩
  | .raise e, op, c, h, hclear, hr => by
    have hs : sys.Step ok' False i c ⟨c.shared, c.own, Function.update c.running i none⟩ :=
      .finish (show c.running i = some (op, .ended (.error e)) from hr)
    exact ⟨_, .single ⟨i, hs⟩, h.step hcomp (hs.mono hok False.elim),
      ⟨fun _ _ => rfl, fun j hj => Function.update_of_ne hj ..⟩, hclear,
      Or.inl (Function.update_self ..)⟩

end Invariant

/-! ## Schedules -/

/-- What a process does in its turn. -/
inductive Turn (Op χ : Type) where
  | start (op : Op)
  | act (c : χ)
  | finish

/-- One turn of the process `i`; `none` if it cannot take it. -/
def turn (sys : System Op A ε χ σ κ) (allow : χ → {β : Type} → A β → σ × κ → Bool) (i : ι)
    (t : Turn Op χ) (c : Configuration ι Op A ε σ κ) : Option (Configuration ι Op A ε σ κ) :=
  match t, c.running i with
  | .start op, none =>
    some ⟨c.shared, c.own, Function.update c.running i (some (op, sys.program op))⟩
  | .act ch, some (op, .act a k) =>
    if allow ch a (c.shared, c.own i) then
      (sys.sem.perform ch a (c.shared, c.own i)).map fun x =>
        ⟨x.2.1, Function.update c.own i x.2.2, Function.update c.running i (some (op, k x.1))⟩
    else none
  | .finish, some (_, p) =>
    p.outcome?.map fun _ => ⟨c.shared, c.own, Function.update c.running i none⟩
  | _, _ => none

/-- The turns of a schedule, in order. -/
def run (sys : System Op A ε χ σ κ) (allow : χ → {β : Type} → A β → σ × κ → Bool) :
    List (ι × Turn Op χ) → Configuration ι Op A ε σ κ → Option (Configuration ι Op A ε σ κ)
  | [], c => some c
  | (i, t) :: ts, c => (sys.turn allow i t c).bind (sys.run allow ts)

theorem step_of_turn {sys : System Op A ε χ σ κ} {allow : χ → {β : Type} → A β → σ × κ → Bool}
    {mayStop : Prop} {i : ι} {t : Turn Op χ} {c c' : Configuration ι Op A ε σ κ}
    (h : sys.turn allow i t c = some c') :
    sys.Step (fun ch {_} a s => allow ch a s = true) mayStop i c c' := by
  unfold turn at h
  split at h
  · rename_i hn
    rw [← Option.some.inj h]
    exact .start _ hn
  · rename_i ch op β a k hr
    split at h
    · rename_i hok
      obtain ⟨⟨r, w, l⟩, hp, rfl⟩ := Option.map_eq_some_iff.1 h
      exact .act hr ⟨ch, hok, hp⟩
    · simp at h
  · rename_i op p hr
    obtain ⟨out, ho, rfl⟩ := Option.map_eq_some_iff.1 h
    exact .finish (hr.trans (by rw [Prog.outcome?_eq_some.1 ho]))
  · simp at h

/-- A schedule leads to a reachable configuration. -/
theorem reachable_of_run {sys : System Op A ε χ σ κ} {allow : χ → {β : Type} → A β → σ × κ → Bool}
    {mayStop : Prop} :
    ∀ {ts : List (ι × Turn Op χ)} {c c' : Configuration ι Op A ε σ κ},
      sys.run allow ts c = some c' →
      sys.Reachable (fun ch {_} a s => allow ch a s = true) mayStop c c'
  | [], _, _, h => by
    rw [Option.some.inj h]
    exact .refl
  | (i, _) :: _, _, _, h => by
    obtain ⟨c₁, ht, hr⟩ := Option.bind_eq_some_iff.1 h
    exact .head ⟨i, step_of_turn ht⟩ (reachable_of_run hr)

/-- A schedule whose steps all pass a check. -/
def runWhere (sys : System Op A ε χ σ κ) (allow : χ → {β : Type} → A β → σ × κ → Bool)
    (check : Configuration ι Op A ε σ κ → Configuration ι Op A ε σ κ → Bool) :
    List (ι × Turn Op χ) → Configuration ι Op A ε σ κ → Option (Configuration ι Op A ε σ κ)
  | [], c => some c
  | (i, t) :: ts, c =>
    (sys.turn allow i t c).bind fun c₁ => if check c c₁ then
      sys.runWhere allow check ts c₁ else none

theorem path_of_runWhere {sys : System Op A ε χ σ κ} {allow : χ → {β : Type} → A β → σ × κ → Bool}
    {mayStop : Prop} {check : Configuration ι Op A ε σ κ → Configuration ι Op A ε σ κ → Bool} :
    ∀ {ts : List (ι × Turn Op χ)} {c c' : Configuration ι Op A ε σ κ},
      sys.runWhere allow check ts c = some c' →
      Relation.ReflTransGen
        (fun c c' => (∃ i, sys.Step (fun ch {_} a s => allow ch a s = true) mayStop i c c') ∧
          check c c' = true) c c'
  | [], _, _, h => Option.some.inj h ▸ .refl
  | (i, _) :: _, _, _, h => by
    obtain ⟨c₁, ht, hr⟩ := Option.bind_eq_some_iff.1 h
    split at hr
    · rename_i hcheck
      exact .head ⟨⟨i, step_of_turn ht⟩, hcheck⟩ (path_of_runWhere hr)
    · simp at hr

/-- A turn of another process. -/
theorem running_of_turn {sys : System Op A ε χ σ κ} {allow : χ → {β : Type} → A β → σ × κ → Bool}
    {i j : ι} {t : Turn Op χ} {c c' : Configuration ι Op A ε σ κ}
    (h : sys.turn allow i t c = some c') (hj : j ≠ i) : c'.running j = c.running j := by
  have hupd : ∀ (f : ι → Option (Op × Prog A ε Unit)) p, Function.update f i p j = f j := fun f p =>
    Function.update_of_ne hj p f
  unfold turn at h
  split at h
  · rw [← Option.some.inj h]
    exact hupd _ _
  · split at h
    · obtain ⟨x, -, rfl⟩ := Option.map_eq_some_iff.1 h
      exact hupd _ _
    · simp at h
  · obtain ⟨x, -, rfl⟩ := Option.map_eq_some_iff.1 h
    exact hupd _ _
  · simp at h

theorem running_of_run {sys : System Op A ε χ σ κ} {allow : χ → {β : Type} → A β → σ × κ → Bool}
    {j : ι} :
    ∀ {ts : List (ι × Turn Op χ)} {c c' : Configuration ι Op A ε σ κ},
      sys.run allow ts c = some c' →
      (∀ x ∈ ts, j ≠ x.1) → c'.running j = c.running j
  | [], _, _, h, _ => by rw [Option.some.inj h]
  | (i, _) :: ts, _, _, h, hj => by
    obtain ⟨c₁, ht, hr⟩ := Option.bind_eq_some_iff.1 h
    have hi : j ≠ i := hj _ List.mem_cons_self
    rw [running_of_run hr fun x hx => hj x (List.mem_cons_of_mem _ hx), running_of_turn ht hi]

/-- It began when nothing was running. -/
theorem During.idle {sys : System Op A ε χ σ κ} {ok : Allow A χ (σ × κ)} {mayStop : Prop} {i : ι}
    {op : Op} {c₀ c : Configuration ι Op A ε σ κ} {ws : List (σ × σ)}
    (h : sys.During ok mayStop i op c₀ ws c) : c₀.running i = none := by
  induction h with
  | start hn => exact hn
  | own _ _ _ ih => exact ih
  | other _ _ _ ih => exact ih

/-- The process runs the operation all the while. -/
theorem During.running {sys : System Op A ε χ σ κ} {ok : Allow A χ (σ × κ)} {mayStop : Prop} {i : ι}
    {op : Op} {c₀ c : Configuration ι Op A ε σ κ} {ws : List (σ × σ)}
    (h : sys.During ok mayStop i op c₀ ws c) : ∃ p, c.running i = some (op, p) := by
  induction h with
  | start => exact ⟨_, Function.update_self ..⟩
  | own _ hs hne ih =>
    obtain ⟨p, hp⟩ := ih
    cases hs with
    | start op' hn => exact absurd (hp.symm.trans hn) (by simp)
    | act hr hn =>
      rw [hp, Option.some.injEq, Prod.mk.injEq] at hr
      rw [hr.1]
      exact ⟨_, Function.update_self ..⟩
    | finish => exact absurd (Function.update_self ..) hne
    | stop => exact absurd (Function.update_self ..) hne
  | other _ hj hs ih =>
    obtain ⟨p, hp⟩ := ih
    refine ⟨p, ?_⟩
    cases hs <;> simp only [Function.update_of_ne hj.symm, hp]

theorem During.of_start {sys : System Op A ε χ σ κ} {allow : χ → {β : Type} → A β → σ × κ → Bool}
    {mayStop : Prop} {i : ι} {op : Op} {c c' : Configuration ι Op A ε σ κ}
    (h : sys.turn allow i (.start op) c = some c') :
    sys.During (fun ch {_} a s => allow ch a s = true) mayStop i op c [] c' := by
  unfold turn at h
  cases hn : c.running i with
  | none =>
    rw [hn] at h
    rw [← Option.some.inj h]
    exact .start hn
  | some x =>
    rw [hn] at h
    cases h

/-- A schedule in which the process only acts goes on with the operation. -/
theorem During.of_run {sys : System Op A ε χ σ κ} {allow : χ → {β : Type} → A β → σ × κ → Bool}
    {mayStop : Prop} {i : ι} {op : Op} {c₀ : Configuration ι Op A ε σ κ} :
    ∀ {ts : List (ι × Turn Op χ)} {ws : List (σ × σ)} {c c' : Configuration ι Op A ε σ κ},
      sys.During (fun ch {_} a s => allow ch a s = true) mayStop i op c₀ ws c →
        (∀ x ∈ ts, x.1 = i → ∃ ch, x.2 = .act ch) →
      sys.run allow ts c = some c' →
      ∃ ws', sys.During (fun ch {_} a s => allow ch a s = true) mayStop i op c₀ ws' c'
  | [], ws, c, c', h, _, hr => by
    rw [← Option.some.inj hr]
    exact ⟨ws, h⟩
  | (j, t) :: ts, ws, c, c', h, hacts, hr => by
    obtain ⟨c₁, ht, hgo⟩ := Option.bind_eq_some_iff.1 hr
    have hrest : ∀ x ∈ ts, x.1 = i → ∃ ch, x.2 = .act ch :=
      fun x hx => hacts x (List.mem_cons_of_mem _ hx)
    by_cases hj : j = i
    · subst hj
      obtain ⟨ch, rfl⟩ : ∃ ch, t = .act ch := hacts _ List.mem_cons_self rfl
      have hgoes : c₁.running j ≠ none := by
        obtain ⟨p, hp⟩ := h.running
        cases p with
        | act a k =>
          simp only [turn, hp] at ht
          split at ht
          · obtain ⟨x, -, rfl⟩ := Option.map_eq_some_iff.1 ht
            simp
          · cases ht
        | ret | raise => simp [turn, hp] at ht
      exact During.of_run (h.own (step_of_turn ht) hgoes) hrest hgo
    · exact During.of_run (h.other hj (step_of_turn ht)) hrest hgo

/-- After a schedule of some processes nothing runs, if nothing ran before and none of them runs
now. -/
theorem quiet_of_run {sys : System Op A ε χ σ κ} {allow : χ → {β : Type} → A β → σ × κ → Bool}
    {ts : List (ι × Turn Op χ)} {c c' : Configuration ι Op A ε σ κ}
    (h : sys.run allow ts c = some c') (hq : Quiet c) {is : List ι} (hts : ∀ x ∈ ts, x.1 ∈ is)
    (his : ∀ i ∈ is, c'.running i = none) : Quiet c' := by
  intro j
  by_cases hj : j ∈ is
  · exact his j hj
  · have hother : ∀ x ∈ ts, j ≠ x.1 := by
      rintro x hx rfl
      exact hj (hts x hx)
    rw [running_of_run h hother]
    exact hq j

end System

/-- With one process, a safe program keeps an invariant that its guarded actions keep. -/
theorem Safe.steps_keep {α : Type} {sem : Sem A ε χ (σ × κ)} {ok : Allow A χ (σ × κ)}
    {R : κ → σ → σ → Prop} {G : Guard A σ κ} (hR : IsRely R) {Q : Except ε α → σ → κ → Prop}
    {J : σ × κ → Prop}
    (hJ : ∀ (s s' : σ × κ) {β : Type} (a : A β) (r : Except ε β), J s → G s.1 s.2 a →
      sem.Next ok s a r s' → J s')
    {p p' : Prog A ε α} {s s' : σ × κ} (h : Safe sem ok R G Q p s.1 s.2)
    (hs : sem.Steps ok p s p' s') (hj : J s) : J s' := by
  induction hs with
  | refl => exact hj
  | step hn _ ih =>
    obtain ⟨hg, hk⟩ := h _ (hR.refl _ _)
    exact ih (hk _ _ _ hn) (hJ _ _ _ _ hj hg hn)

/-- The same where only some actions come up at all. -/
theorem Safe.steps_keep_only {α : Type} {sem : Sem A ε χ (σ × κ)} {ok : Allow A χ (σ × κ)}
    {R : κ → σ → σ → Prop} {G : Guard A σ κ} (hR : IsRely R) {Q : Except ε α → σ → κ → Prop}
    {J : σ × κ → Prop} {H : {β : Type} → A β → Prop}
    (hJ : ∀ (s s' : σ × κ) {β : Type} (a : A β) (r : Except ε β), J s → H a → G s.1 s.2 a →
      sem.Next ok s a r s' → J s')
    {p p' : Prog A ε α} {s s' : σ × κ} (ho : p.Only H) (h : Safe sem ok R G Q p s.1 s.2)
    (hs : sem.Steps ok p s p' s') (hj : J s) : J s' := by
  induction hs with
  | refl => exact hj
  | step hn _ ih =>
    obtain ⟨hg, hk⟩ := h _ (hR.refl _ _)
    exact ih (ho.2 _) (hk _ _ _ hn) (hJ _ _ _ _ hj ho.1 hg hn)

end Effects
