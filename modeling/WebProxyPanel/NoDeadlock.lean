import WebProxyPanel.Proceeds
/-!
# Whatever has started can be finished

`no_deadlock`: from every configuration that any number of processes can reach, with failures and
stops anywhere, there is a way on, in which nothing fails, that brings every operation to its end.
Two locks could stand in the way, the write lock of the database and `pool.lock`: whoever has the
first never waits for anything, and whoever has the second waits for the first only.

* `next_noFault` — no action but `BEGIN IMMEDIATE` and `flock` ever has to wait.
* `Ordered.endTx`, `Ordered.endLock`, `Ordered.finishAll` — first whoever writes goes on, then
  whoever has the pool lock, then all the others.
-/

namespace WebProxyPanel
open Effects

/-! ## Steps without a failure -/

section Steps
variable {op : Op} {w w' : World} {l l' : Own}

/-- What a process promises before its actions, with what makes its statements come to an end. -/
def patient (op : Op) (w : World) (l : Own) {β : Type} (a : Action β) : Prop :=
  promises false op w l a ∧ proceeds w l a

theorem exists_next {β : Type} {a : Action β} {s : State} (c : Choice) (hc : c.result = .ok)
    (h : (respond c a s).isSome = true) : ∃ r w' l', sem.Next noFault s a r (w', l') := by
  obtain ⟨⟨r, w', l'⟩, hr⟩ := Option.isSome_iff_exists.1 h
  exact ⟨r, w', l'.note (entries c a), c, hc, Option.map_eq_some_iff.2 ⟨_, hr, rfl⟩⟩

theorem inTx_of_begin {β : Type} {a : Action β} (ha : patient op w l a)
    (h : a.call? = some .begin_) : l.inTx = false := by
  cases a with
  | beginImmediate => exact ha.1
  | _ => cases h

theorem free_of_lock {β : Type} {a : Action β} (ha : patient op w l a) (h : a.call? = some .lock) :
    l.locked = false ∧ l.inTx = false := by
  cases a with
  | lock => exact ha.1
  | _ => cases h

/-- Only `BEGIN IMMEDIATE` and `flock` ever wait. -/
theorem next_noFault {β : Type} {a : Action β} (ha : patient op w l a)
    (hwriter : l.inTx = true → w.writer ≠ none) (hbegin : a.call? = some .begin_ → w.writer = none)
    (hlock : a.call? = some .lock → w.poolLock = false) :
    ∃ r w' l', sem.Next noFault (w, l) a r (w', l') := by
  cases a with
  | now => exact exists_next (.time 0) rfl rfl
  | beginImmediate => exact exists_next .ok rfl (by simp [respond, hbegin rfl])
  | commit =>
    obtain ⟨⟨tx, htx, -⟩, -⟩ := ha
    exact exists_next .ok rfl (by simp [respond, htx])
  | rollback => exact exists_next .ok rfl (by simp only [respond]; cases ownTx (w, l) <;> rfl)
  | sql m =>
    obtain ⟨⟨ht, -⟩, hfed⟩ := ha
    obtain ⟨tx, hw⟩ := Option.ne_none_iff_exists'.1 (hwriter ht)
    have htx : ownTx (w, l) = some tx := by simp [ownTx, ht, hw]
    obtain ⟨inp, hhex, ⟨x, db', hm⟩ | ⟨e, db', hm⟩⟩ := hfed tx htx
    · exact exists_next (.inputs inp) rfl
        (by simp [respond, htx, runSql, List.all_eq_true.2 hhex, hm, Inputs.empty])
    · exact exists_next (.inputs inp) rfl
        (by simp [respond, htx, runSql, List.all_eq_true.2 hhex, hm, Inputs.empty])
  | relayCheck => exact exists_next (.answer true "") rfl rfl
  | waitHealthy => exact exists_next (.answer true "") rfl rfl
  | lock => exact exists_next .ok rfl (by simp [respond, hlock rfl])
  | inTransaction | query | firewallCalls | fwCall | ctlSelect | ctlCurrent | ctlReplace |
      writeFile | readFile | removeFile | restartRelay
  | restartShard | stopShard | enableShard | disableShard | unlock => exact exists_next .ok rfl rfl

end Steps

/-! ## Who holds the pool lock -/

/-- Somebody holds the pool lock if it is held. -/
def Holder (w : World) (ls : Nat → Own) : Prop := w.poolLock = true → ∃ i, (ls i).locked = true

section Holder
variable {ok : Allow Action Choice State} {mayStop : Prop}

theorem Holder.same {w w' : World} {ls : Nat → Own} {i : Nat} {l' : Own} (h : Holder w ls)
    (hlk : l'.locked = (ls i).locked) (hp : w'.poolLock = w.poolLock) :
    Holder w' (Function.update ls i l') := by
  intro hheld
  obtain ⟨j, hj⟩ := h (hp ▸ hheld)
  exact ⟨j, (update_field ls i l' Own.locked hlk j).trans hj⟩

theorem kept_holder : Kept ok mayStop Holder where
  does w ls i op w' l' _ h hd := by
    cases hd with
    | nothing | begin_ | statements | commit | rollback | fwCall | file | units =>
      exact h.same rfl rfl
    | replace ports blocked l₁ es _ _ hl =>
      rcases hl with rfl | rfl
      · exact h.same rfl rfl
      · exact h.same rfl rfl
    | lock => exact fun _ => ⟨i, by rw [Function.update_self]; rfl⟩
    | unlock => exact fun hheld => absurd hheld Bool.false_ne_true
  stop _ w ls i hm h hheld := by
    by_cases hl : (ls i).locked = true
    · -- the stop has given it back
      simp [crash, hl] at hheld
    · have hp : w.poolLock = true := by
        simp only [crash, if_neg hl, id_eq] at hheld
        split at hheld <;> exact hheld
      obtain ⟨j, hj⟩ := h hp
      have hji : j ≠ i := fun he => hl (he ▸ hj)
      exact ⟨j, (congrArg Own.locked (Function.update_of_ne hji ..)).trans hj⟩

/-- With the second guard. -/
theorem composes_patient :
    system.Composes ok mayStop (interferes false) patient (Ready ok) fun w ls => Mutex w ls ∧
      Holder w ls := by
  have hcomp : system.Composes ok mayStop (interferes false) (promises false) (Ready ok) fun w ls =>
      Mutex w ls ∧ Holder w ls :=
    composes kept_holder
  exact {
    rely := hcomp.rely
    idle := hcomp.idle
    safe := fun op w l h => ((hcomp.safe op w l h).and (proceeds_program h op)).mono fun _ _ _ hq =>
    hq.1
    act := fun w ls i op {β} a r w' l' h hg hn => hcomp.act w ls i op a r w' l' h hg.1 hn
    stop := hcomp.stop }

end Holder

/-! ## Every order of steps -/

/-- Anything may happen. -/
def whatever : Allow Action Choice State := fun _ {_} _ _ => True

theorem composes_whatever :
    system.Composes whatever True (interferes false) patient (Ready whatever) fun w ls =>
      Mutex w ls ∧ Holder w ls :=
  composes_patient

/-- What holds in every reachable configuration. -/
abbrev Ordered (c : Procs) : Prop :=
  system.Good whatever (interferes false) patient (Ready whatever)
    (fun w ls => Mutex w ls ∧ Holder w ls) c

/-- A run without failures or stops. -/
abbrev Onward (c c' : Procs) : Prop := system.Reachable noFault False c c'

section Onward
variable {c : Procs} {i : Nat}

theorem Ordered.idle (h : Ordered c) (hr : c.running i = none) :
    (c.own i).inTx = false ∧ (c.own i).locked = false := by
  have hi := h.sound i
  rw [hr] at hi
  exact ⟨hi.inTx, hi.locked⟩

/-- Nobody is in a transaction. -/
def NoTx (c : Procs) : Prop := ∀ i, (c.own i).inTx = false

/-- Nobody holds a lock. -/
def Unheld (c : Procs) : Prop := NoTx c ∧ ∀ i, (c.own i).locked = false

/-- Whoever writes can go on until the transaction is over: inside one nobody waits. -/
theorem Ordered.endTx (h : Ordered c) :
    ∃ c', Onward c c' ∧ Ordered c' ∧ NoTx c' ∧ ∀ j, c.running j = none → c'.running j = none := by
  by_cases hnone : NoTx c
  · exact ⟨c, .refl, h, hnone, fun _ hj => hj⟩
  obtain ⟨i, hi⟩ := not_forall.1 hnone
  have hi : (c.own i).inTx = true := eq_true_of_ne_false hi
  cases hr : c.running i with
  | none =>
    rw [(h.idle hr).1] at hi
    cases hi
  | some x =>
    obtain ⟨op, p⟩ := x
    have hstep : ∀ (w : World) (ls : Nat → Own) (op : Op) {β : Type} (a : Action β), Mutex w ls ∧
        Holder w ls → True → ¬ (ls i).inTx = false → patient op w (ls i) a →
          ∃ r w' l', sem.Next noFault (w, ls i) a r (w', l') ∧ True := by
      intro w ls op β a hj _ ht hg
      have ht : (ls i).inTx = true := eq_true_of_ne_false ht
      obtain ⟨r, w', l', hn⟩ := next_noFault hg (fun _ => hj.1.writer.2 ⟨i, ht⟩)
        (fun ha => absurd ht (by rw [inTx_of_begin hg ha]; exact Bool.false_ne_true))
        (fun ha => absurd ht (by rw [(free_of_lock hg ha).2]; exact Bool.false_ne_true))
      exact ⟨r, w', l', hn, trivial⟩
    obtain ⟨c', hreach, hgood, haside, -, hend⟩ :=
      System.Good.advance (fun _ _ _ _ _ => trivial) composes_whatever (fun _ _ => True)
      (fun l => l.inTx = false) hstep h trivial hr
    have hfar : (c'.own i).inTx = false := hend.elim (fun hn => (Ordered.idle hgood hn).1) id
    refine ⟨c', hreach, hgood, fun j => ?_, fun j hj => ?_⟩
    · by_cases hji : j = i
      · rw [hji, hfar]
      · rw [haside.own j hji]
        by_contra hne
        exact hji (h.global.1.tx j i (eq_true_of_ne_false hne) hi)
    · by_cases hji : j = i
      · rw [hji, hr] at hj
        cases hj
      · rw [haside.running j hji, hj]

/-- A process comes to its end if no other one holds a lock. -/
theorem Ordered.finish (h : Ordered c)
    (hothers : ∀ j, j ≠ i → (c.own j).inTx = false ∧ (c.own j).locked = false) :
    ∃ c', Onward c c' ∧ Ordered c' ∧ Unheld c' ∧ c'.running i = none ∧ ∀ j, j ≠ i →
      c'.running j = c.running j := by
  cases hr : c.running i with
  | none =>
    have hi := h.idle hr
    refine ⟨c, .refl, h, ⟨fun j => ?_, fun j => ?_⟩, hr, fun _ _ => rfl⟩
    · by_cases hji : j = i
      · rw [hji, hi.1]
      · exact (hothers j hji).1
    · by_cases hji : j = i
      · rw [hji, hi.2]
      · exact (hothers j hji).2
  | some x =>
    obtain ⟨op, p⟩ := x
    have hstep : ∀ (w : World) (ls : Nat → Own) (op : Op) {β : Type} (a : Action β),
        Mutex w ls ∧ Holder w ls →
        (∀ j, j ≠ i → (ls j).inTx = false ∧ (ls j).locked = false) → ¬ False →
        patient op w (ls i) a →
          ∃ r w' l', sem.Next noFault (w, ls i) a r (w', l') ∧
            ∀ j, j ≠ i → (Function.update ls i l' j).inTx = false ∧
            (Function.update ls i l' j).locked = false := by
      intro w ls op β a hj hothers _ hg
      obtain ⟨r, w', l', hn⟩ := next_noFault hg (fun ht => hj.1.writer.2 ⟨i, ht⟩)
        (fun ha => by
          -- only an open transaction could be in the way
          by_contra hw
          obtain ⟨j, ht⟩ := hj.1.writer.1 hw
          by_cases hji : j = i
          · rw [hji, inTx_of_begin hg ha] at ht
            cases ht
          · rw [(hothers j hji).1] at ht
            cases ht)
        (fun ha => by
          by_contra hp
          obtain ⟨j, hl⟩ := hj.2 (eq_true_of_ne_false hp)
          by_cases hji : j = i
          · rw [hji, (free_of_lock hg ha).1] at hl
            cases hl
          · rw [(hothers j hji).2] at hl
            cases hl)
      refine ⟨r, w', l', hn, fun j hji => ?_⟩
      rw [Function.update_of_ne hji]
      exact hothers j hji
    obtain ⟨c', hreach, hgood, haside, hclear, hend⟩ :=
      System.Good.advance (fun _ _ _ _ _ => trivial) composes_whatever
      (fun _ ls => ∀ j, j ≠ i → (ls j).inTx = false ∧ (ls j).locked = false) (fun _ => False)
      hstep h hothers hr
    have hnone : c'.running i = none := hend.resolve_right id
    have hi := Ordered.idle hgood hnone
    refine ⟨c', hreach, hgood, ⟨fun j => ?_, fun j => ?_⟩, hnone, haside.running⟩
    · by_cases hji : j = i
      · rw [hji, hi.1]
      · exact (hclear j hji).1
    · by_cases hji : j = i
      · rw [hji, hi.2]
      · exact (hclear j hji).2

/-- Then whoever has the pool lock comes to its end: it waits for nothing but the write lock. -/
theorem Ordered.endLock (h : Ordered c) (ht : NoTx c) :
    ∃ c', Onward c c' ∧ Ordered c' ∧ Unheld c' ∧ ∀ j, c.running j = none → c'.running j = none := by
  by_cases hnone : ∀ i, (c.own i).locked = false
  · exact ⟨c, .refl, h, ⟨ht, hnone⟩, fun _ hj => hj⟩
  obtain ⟨i, hi⟩ := not_forall.1 hnone
  have hi : (c.own i).locked = true := eq_true_of_ne_false hi
  have hothers : ∀ j, j ≠ i → (c.own j).inTx = false ∧ (c.own j).locked = false := by
    refine fun j hji => ⟨ht j, ?_⟩
    by_contra hne
    exact hji (h.global.1.lock j i (eq_true_of_ne_false hne) hi)
  obtain ⟨c', hreach, hgood, hunheld, hnone', hrunning⟩ := h.finish hothers
  refine ⟨c', hreach, hgood, hunheld, fun j hj => ?_⟩
  by_cases hji : j = i
  · rw [hji, hnone']
  · rw [hrunning j hji, hj]

/-- And then all the others, one after the other. -/
theorem Ordered.finishAll :
    ∀ (js : List Nat) {c : Procs}, Ordered c → Unheld c → (∀ j, j ∉ js → c.running j = none) →
    ∃ c', Onward c c' ∧ Ordered c' ∧ System.Quiet c'
  | [], c, h, _, hjs => ⟨c, .refl, h, fun j => hjs j List.not_mem_nil⟩
  | i :: js, c, h, hu, hjs => by
    obtain ⟨c₁, hreach₁, h₁, hu₁, hnone, hrunning⟩ := h.finish (i := i) fun j _ => ⟨hu.1 j, hu.2 j⟩
    have hjs₁ : ∀ j, j ∉ js → c₁.running j = none := by
      intro j hj
      by_cases hji : j = i
      · rw [hji, hnone]
      · rw [hrunning j hji]
        exact hjs j fun hm => hj ((List.mem_cons.1 hm).resolve_left hji)
    obtain ⟨c', hreach, hgood, hquiet⟩ := Ordered.finishAll js h₁ hu₁ hjs₁
    exact ⟨c', hreach₁.trans hreach, hgood, hquiet⟩

/-- No deadlock: whatever order of steps, failures and stops there has been, there is a way on
without any that brings every operation to its end and gives back both locks. -/
theorem no_deadlock {ok : Allow Action Choice State} {mayStop : Prop} (h : Reached ok mayStop c) :
    ∃ c', Onward c c' ∧ System.Quiet c' ∧ c'.shared.writer = none ∧ c'.shared.poolLock = false := by
  have hreached : system.Reachable whatever True Procs.initial c :=
    System.Reachable.mono (fun _ _ _ _ _ => trivial) (fun _ => trivial) h
  have h₀ : Ordered Procs.initial := by
    refine ⟨⟨mutex_initial, fun hheld => absurd hheld Bool.false_ne_true⟩, fun i => ?_⟩
    exact ⟨rfl, rfl, fun _ => rfl, worldOk_initial⟩
  have hordered : Ordered c := System.invariant composes_patient h₀ hreached
  obtain ⟨js, hjs⟩ := System.listed_running h ⟨[], fun _ _ => rfl⟩
  obtain ⟨c₁, hreach₁, h₁, ht₁, hrunning₁⟩ := hordered.endTx
  obtain ⟨c₂, hreach₂, h₂, hu₂, hrunning₂⟩ := Ordered.endLock h₁ ht₁
  obtain ⟨c', hreach₃, h', hquiet⟩ := Ordered.finishAll js h₂ hu₂ fun j hj =>
      hrunning₂ j (hrunning₁ j (hjs j hj))
  refine ⟨c', (hreach₁.trans hreach₂).trans hreach₃, hquiet, ?_, ?_⟩
  · by_contra hw
    obtain ⟨i, hi⟩ := h'.global.1.writer.1 hw
    rw [(Ordered.idle h' (hquiet i)).1] at hi
    cases hi
  · by_contra hp
    obtain ⟨i, hi⟩ := h'.global.2 (eq_true_of_ne_false hp)
    rw [(Ordered.idle h' (hquiet i)).2] at hi
    cases hi

end Onward

/-- One process has taken `pool.lock`, another one has begun a transaction. -/
def bothHeld : List (Nat × System.Turn Op Choice) :=
  (0, .start (.maintain sampleConfig sampleSizing (some 1))) :: (0, .act .ok) ::
    (1, .start (.createUser sampleUser)) :: (createOnce.take 5).map fun c => (1, .act c)

theorem bothHeld_runs :
    ((system.run anything bothHeld Procs.initial).map fun c =>
      (c.shared.poolLock, c.shared.writer.isSome)) =
      some (true, true) := by decide +kernel

theorem no_deadlock_bothHeld :
    ∃ c c' : Procs, (c.shared.poolLock, c.shared.writer.isSome) = (true, true) ∧ Onward c c' ∧
      System.Quiet c' ∧
    c'.shared.writer = none ∧ c'.shared.poolLock = false := by
  obtain ⟨c, hrun, hc⟩ := Option.map_eq_some_iff.1 bothHeld_runs
  have hreached : Reached (fun c {_} a s => anything c a s = true) False c :=
    System.reachable_of_run hrun
  obtain ⟨c', h⟩ := no_deadlock hreached
  exact ⟨c, c', hc, h⟩

end WebProxyPanel
