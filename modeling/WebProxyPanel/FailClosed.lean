import WebProxyPanel.Sequential
/-!
# What stays closed when a process stops

users.py makes its firewall calls before COMMIT (module docstring, :1-10). For `block` that is the
safe direction. An `unblock` that is followed by a stop, or by failures of both COMMIT and the sync,
leaves its ports open although the database says closed; those are the only ones (`stopped_closed`).
-/

namespace WebProxyPanel
open Effects

/-- The slot is not assigned to a device of an enabled user. -/
def Closed (db : DB) (s : Slot) : Prop := ¬ (s.status = .assigned ∧ HasEnabledUser db s)

instance (db : DB) (s : Slot) : Decidable (Closed db s) := by unfold Closed; infer_instance

theorem Inv.mem_blockedSet_of_closed {db : DB} (h : Inv db) {s : Slot} (hs : s ∈ db.slots)
    (hc : Closed db s) :
    s.port ∈ blockedSet db := (h.mem_blockedSet hs).2 fun ho => hc ⟨ho.1, ho.2.2⟩

theorem Inv.closed_of_mem_blockedSet {db : DB} (h : Inv db) {s : Slot} (hs : s ∈ db.slots)
    (ha : OnActive db s) (hb : s.port ∈ blockedSet db) : Closed db s :=
  fun ho => (h.mem_blockedSet hs).1 hb ⟨ho.1, ha, ho.2⟩

/-- A closed slot is blocked, unless the operation itself has asked for its port. -/
def Covered (s : State) : Prop :=
  ∀ slot ∈ s.1.db.slots, OnActive s.1.db slot → Closed s.1.db slot → slot.port ∈ s.1.blocked ∨
    slot.port ∈ s.2.unblocked

section Covered
variable {ok : Allow Action Choice State} {m : Mode} {w w' : World} {l l' : Own}

/-- An operation that does not open ports has asked for none. -/
theorem Does.unblocked_nil (hd : Does ok m w l w' l') (hopens : m.opens = false)
    (h : l.unblocked = []) : l'.unblocked = [] := by
  cases hd with
  | fwCall call fails done es hg _ =>
    have hnil : call.opens = [] := by
      by_contra hne
      rw [hg.2.2.1 hne] at hopens
      simp at hopens
    simp [h, hnil]
  | replace ports blocked l₁ es _ _ hl => rcases hl with rfl | rfl <;> exact h
  | nothing es => exact h
  | begin_ es _ _ => exact h
  | statements tx tx' es _ _ _ _ => exact h
  | commit tx es _ _ _ => exact h
  | rollback tx es _ => exact h
  | file p data es _ _ => exact h
  | units u es _ => exact h
  | lock es _ _ => exact h
  | unlock es _ _ => exact h

/-- COMMIT closes a slot only after its port was blocked. -/
theorem Covered.commit (hi : SoloInv (w, l)) (h : Covered (w, l)) {tx : Tx}
    (htx : ownTx (w, l) = some tx) (hc : CommitOk m.moves l w tx) (es : List Entry) :
    Covered (w.commit tx, { l with inTx := false }.note es) := by
  have hw := (inTx_of_ownTx htx).2
  have hintact : w.overwritten = false := hi.intact.resolve_left (by simp [hw])
  intro s' hs' ha' hcl
  have hb : s'.port ∈ blockedSet tx.copy := hc.inv.mem_blockedSet_of_closed hs' hcl
  have hstep := (hc.fw s' hs' ha').2 hb
  by_cases hp : s'.port ∈ tx.issued.flatMap FwCall.ports
  · -- its last call was a block
    left
    rw [World.commit_blocked, hi.fw.named tx hw hc.whole hintact _ hp]
    exact (mem_runCalls_of_mem hp).1 hstep
  · rw [mem_runCalls_of_notMem hp] at hstep
    rcases hc.active s' hs' ha' with ⟨s, hs, hport, ha⟩ | ⟨hsy, -, s, hs, hport, hna⟩
    · rw [← hport] at hstep ⊢
      exact h s hs ha (hi.mutex.world.1.closed_of_mem_blockedSet hs ha hstep)
    · left
      rw [World.commit_blocked, ← hport]
      exact hi.fw.inactive () hsy s hs hna

theorem Covered.does (hi : SoloInv (w, l)) (hsolo : m.solo = true) (h : Covered (w, l))
    (hd : Does ok m w l w' l') : Covered (w', l') := by
  cases hd with
  | commit tx es htx hc _ => exact h.commit hi htx hc es
  | fwCall call fails done es hg _ =>
    intro s hs ha hcl
    have hold := h s hs ha hcl
    simp only [World.fwCall_blocked, Own.note_unblocked, Own.called_unblocked, List.mem_append]
    by_cases hp : s.port ∈ call.opens
    · exact .inr (.inr hp)
    · refine hold.imp (fun hb => ?_) .inl
      split
      · exact FwCall.mem_run_of_notMem_opens hp hb
      · exact hb
  | replace ports blocked l₁ es hg _ _ =>
    intro s (hs : s ∈ w.db.slots) ha hcl
    left
    obtain ⟨hp, hb, -⟩ := hg.2 (.inr hsolo)
    rw [World.replace_blocked, hp, hb, mem_loadedSet_now hs]
    exact hi.mutex.world.1.mem_blockedSet_of_closed hs hcl
  | nothing es => exact h
  | begin_ es _ _ => exact h
  | statements tx tx' es _ _ _ _ => exact h
  | rollback tx es _ => exact h
  | file p data es _ _ => exact h
  | units u es _ => exact h
  | lock es _ _ => exact h
  | unlock es _ _ => exact h

/-- What an operation keeps wherever it is stopped. -/
def StopInv (op : Op) (s : State) : Prop :=
  SoloInv s ∧ Covered s ∧ (op.opens = false → s.2.unblocked = [])

theorem StopInv.steps {op : Op} {w : World} (h : Settled w) (n : Nat) {p : P Unit} {s' : State}
    (hs : sem.Steps ok op.program (w, Own.idle n) p s') : StopInv op s' := by
  have hready : Ready ok w (Own.idle n) := ⟨rfl, rfl, fun _ => rfl, h.world⟩
  refine Safe.steps_keep isRely_interferes (J := StopInv op) ?_
    (@safe_program ok true w _ hready op) hs ⟨SoloInv.idle h n, fun s hs ha hcl => ?_, fun _ => rfl⟩
  · rintro ⟨w₁, l₁⟩ ⟨w₂, l₂⟩ β a r ⟨hi, hc, ho⟩ hg hn
    have hd := does_of_next hg hn
    exact ⟨hi.does rfl hd, hc.does hi rfl hd, fun hop => hd.unblocked_nil hop (ho hop)⟩
  · left
    exact (agreement_iff h.world.1).1 h.agree s hs ha |>.2
      (h.world.1.mem_blockedSet_of_closed hs hcl)

end Covered

/-- Wherever a process stops, or whatever of it fails, the recovery included: a slot on an active
shard that the committed database says is closed is blocked, unless the operation had asked to
unblock its port; and operations that only close ports have asked for none. -/
theorem stopped_closed (ok : Allow Action Choice State) (w : World) (hw : Settled w) (op : Op)
    (n : Nat) (p : P Unit) (s : State) (hs : sem.Steps ok op.program (w, Own.idle n) p s) :
    (∀ slot ∈ (crash s).1.db.slots, OnActive (crash s).1.db slot → Closed (crash s).1.db slot →
      slot.port ∈ (crash s).1.blocked ∨ slot.port ∈ s.2.unblocked) ∧
    (op.opens = false → s.2.unblocked = []) := by
  obtain ⟨-, hc, ho⟩ := StopInv.steps hw n hs
  obtain ⟨hdb, -, -, hb, -⟩ := crash_db s.1 s.2
  rw [hdb, hb]
  exact ⟨hc, ho⟩

/-- `create_user` up to its `unblock`, before COMMIT. -/
def createStops : List Choice := [.time 0] ++ succeed 4 ++ [.inputs ⟨[0, 0], []⟩] ++ succeed 1

theorem createStops_runs :
    ((sem.play recovering (growOnce ((List.range 16).map sampleToken)) samplePool.program
        (World.initial, Own.idle 0)).bind fun x =>
      (sem.play recovering createStops (Op.createUser sampleUser).program (x.2.1, Own.idle 0)).map
        fun y =>
        decide (x.1.outcome? = some (.ok ())) && y.2.1.db.slots.any fun s =>
          decide (OnActive y.2.1.db s) &&
          decide (Closed y.2.1.db s) && decide (s.port ∉ y.2.1.blocked)) = some true := by
  decide +kernel

theorem stopped_closed_createStops : ∃ (w : World) (p : P Unit) (s : State),
    sem.Steps (fun c {_} a s => recovering c a s = true) (Op.createUser sampleUser).program
      (w, Own.idle 0) p s ∧
    ∀ slot ∈ (crash s).1.db.slots, OnActive (crash s).1.db slot → Closed (crash s).1.db slot →
      slot.port ∈ (crash s).1.blocked ∨ slot.port ∈ s.2.unblocked := by
  obtain ⟨⟨p, w, l⟩, h₁, hr⟩ := Option.bind_eq_some_iff.1 createStops_runs
  obtain ⟨⟨q, w', l'⟩, h₂, hr⟩ := Option.map_eq_some_iff.1 hr
  rw [Bool.and_eq_true, decide_eq_true_eq] at hr
  have hp := Prog.outcome?_eq_some.1 hr.1
  subst hp
  have hset := (settled_runs recovers_recovering settled_initial (Sem.Steps.of_play h₁)).1
  have hsteps := Sem.Steps.of_play h₂
  exact ⟨w, q, (w', l'), hsteps,
    (stopped_closed _ w hset (.createUser sampleUser) 0 q (w', l') hsteps).1⟩

/-- A stop between the `unblock` of `create_user` and its COMMIT leaves the port of a free slot
open. -/
theorem createUser_stopped_open : ∃ (w : World) (p : P Unit) (s : State), Settled w ∧
    sem.Steps (fun c {_} a s => recovering c a s = true) (Op.createUser sampleUser).program
      (w, Own.idle 0) p s ∧
    ∃ slot ∈ (crash s).1.db.slots, OnActive (crash s).1.db slot ∧ Closed (crash s).1.db slot ∧
      slot.port ∉ (crash s).1.blocked := by
  obtain ⟨⟨p, w, l⟩, h₁, hr⟩ := Option.bind_eq_some_iff.1 createStops_runs
  obtain ⟨⟨q, w', l'⟩, h₂, hr⟩ := Option.map_eq_some_iff.1 hr
  rw [Bool.and_eq_true, decide_eq_true_eq] at hr
  obtain ⟨hp, hany⟩ := hr
  have hp := Prog.outcome?_eq_some.1 hp
  subst hp
  have hset := (settled_runs recovers_recovering settled_initial (Sem.Steps.of_play h₁)).1
  refine ⟨w, q, (w', l'), hset, Sem.Steps.of_play h₂, ?_⟩
  obtain ⟨slot, hs, hslot⟩ := List.any_eq_true.1 hany
  simp only [Bool.and_eq_true, decide_eq_true_eq] at hslot
  obtain ⟨hdb, -, -, hb, -⟩ := crash_db w' l'
  rw [hdb, hb]
  exact ⟨slot, hs, hslot.1.1, hslot.1.2, hslot.2⟩

end WebProxyPanel
