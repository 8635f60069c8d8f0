import WebProxyPanel.Firewall
/-!
# Operations one after the other

One process at a time, with any action failing anywhere: nothing happens between its steps, so a
table it loads is never out of date, and firewall and database agree again after each operation, if
the sync that the code itself makes after a rollback succeeds.
-/

namespace WebProxyPanel
open Effects

/-- A state between two operations in which firewall and database agree. `WorldOk` holds in every
reachable state (`reached_mutex`). -/
structure Settled (w : World) : Prop where
  world : WorldOk w
  writer : w.writer = none
  agree : Agreement w

theorem settled_initial : Settled World.initial :=
  ⟨worldOk_initial, rfl, fun s hs _ => by simp [World.initial, DB.empty] at hs⟩

/-! ## The steps of one process -/

/-- The state of one process as a family of states. -/
def only (l : Own) : Unit → Own := fun _ => l

theorem update_only (l l' : Own) : Function.update (only l) () l' = only l' := by
  funext u
  rw [Function.update_self]
  rfl

structure SoloInv (s : State) : Prop where
  mutex : Mutex s.1 (only s.2)
  fw : FwInv s.1 (only s.2)
  intact : s.1.writer = none ∨ s.1.overwritten = false

section Solo
variable {ok : Allow Action Choice State} {m : Mode} {w w' : World} {l l' : Own}

theorem SoloInv.idle (h : Settled w) (n : Nat) : SoloInv (w, Own.idle n) where
  mutex :=
    { world := h.world
      tx := fun _ _ _ _ => rfl
      writer := by simp [h.writer, only, Own.idle]
      lock := fun _ _ _ _ => rfl
      held := by simp [only, Own.idle] }
  fw :=
    { named := by simp [h.writer]
      rest := .inr fun s hs ha _ => (agreement_iff h.world.1).1 h.agree s hs ha
      inactive := by simp [only, Own.idle]
      holder := by simp [only, Own.idle] }
  intact := .inl h.writer

theorem SoloInv.writer_of_inTx (h : SoloInv (w, l)) (hl : l.inTx = false) : w.writer = none := by
  by_contra hne
  obtain ⟨_, hj⟩ := h.mutex.writer.1 hne
  change l.inTx = true at hj
  rw [hl] at hj
  simp at hj

/-- A process on its own is always timely. -/
theorem SoloInv.timely (h : SoloInv (w, l)) (hsolo : m.solo = true) :
    Timely ok m w (only l) () where
  replace := by
    rintro c ports blocked hg - -
    obtain ⟨hp, hb, -⟩ := hg.2 (.inr hsolo)
    rw [hp, hb]
    exact loadsRight_now h.mutex.world.1 (only l)
  commit := by
    intro ht _
    refine h.intact.resolve_left ?_
    exact h.mutex.writer.2 ⟨(), ht⟩

theorem SoloInv.does (h : SoloInv (w, l)) (hsolo : m.solo = true) (hd : Does ok m w l w' l') :
    SoloInv (w', l') := by
  have hm : Mutex w' (only l') := by
    have := h.mutex.does (i := ()) hd
    rwa [update_only] at this
  refine ⟨hm, ?_, ?_⟩
  · have := h.fw.does h.mutex (h.timely hsolo) (i := ()) hd
    rwa [update_only] at this
  · cases hd with
    | begin_ es _ _ => exact .inr rfl
    | commit tx es _ _ _ => exact .inl rfl
    | rollback tx es _ => exact .inl rfl
    | statements tx tx' es htx _ _ _ =>
      refine .inr (h.intact.resolve_left ?_)
      simp [(inTx_of_ownTx htx).2]
    | fwCall call fails done es _ _ =>
      exact h.intact.imp_left fun (hw : w.writer = none) => by simp [hw]
    | replace ports blocked l₁ es _ _ _ =>
      cases hl : l.inTx with
      | false => exact .inl (h.writer_of_inTx hl)
      | true => exact h.intact.imp_right fun (ho : w.overwritten = false) => by simp [ho]
    | nothing es => exact h.intact
    | file p data es _ _ => exact h.intact
    | units u es _ => exact h.intact
    | lock es _ _ => exact h.intact
    | unlock es _ _ => exact h.intact

/-- An operation, run any part of the way. -/
theorem SoloInv.steps {op : Op} {w : World} (h : Settled w) (n : Nat) {p : P Unit} {s' : State}
    (hs : sem.Steps ok op.program (w, Own.idle n) p s') : SoloInv s' := by
  have hready : Ready ok w (Own.idle n) := ⟨rfl, rfl, fun _ => rfl, h.world⟩
  refine Safe.steps_keep isRely_interferes (J := SoloInv) ?_ (@safe_program ok true w _ hready op)
    hs (SoloInv.idle h n)
  rintro ⟨w₁, l₁⟩ ⟨w₂, l₂⟩ β a r hj hg hn
  exact hj.does rfl (does_of_next hg hn)

/-- A complete run ends in agreement, and a user operation that raises has changed no table. -/
theorem settled_runs (hrec : Recovers ok) {op : Op} {w w' : World} (h : Settled w) {n : Nat}
    {out : Except Err Unit} {l : Own} (hs : sem.Runs ok op.program (w, Own.idle n) out (w', l)) :
    Settled w' ∧ (op.isUser = true → ∀ e, out = .error e → w'.db = w.db) := by
  have hready : Ready ok w (Own.idle n) := ⟨rfl, rfl, fun _ => rfl, h.world⟩
  have hsolo := SoloInv.steps h n hs
  have hpost := Safe.runs isRely_interferes (@safe_program ok true w _ hready op) hs
  have hend : Ready ok w' l := by
    cases out with
    | ok a => exact hpost
    | error e => exact hpost.1
  refine ⟨⟨hend.world, hsolo.writer_of_inTx hend.inTx, ?_⟩, ?_⟩
  · exact hsolo.fw.agreement hsolo.mutex (fun _ => hend.inTx) fun _ => hend.clean hrec
  · rintro hu e rfl
    exact hpost.2 hu rfl

end Solo

/-! ## Runs of many operations -/

/-- Operations one after the other, each by a process that has made `n` firewall calls so far. -/
inductive Sequence (ok : Allow Action Choice State) : World → World → Prop
  | refl (w : World) : Sequence ok w w
  | tail {w w₁ w₂ : World} (op : Op) (n : Nat) (out : Except Err Unit) (l : Own) :
      Sequence ok w w₁ → sem.Runs ok op.program (w₁, Own.idle n) out (w₂, l) → Sequence ok w w₂

theorem Sequence.settled {ok : Allow Action Choice State} (hrec : Recovers ok) {w w' : World}
    (h : Settled w) (hs : Sequence ok w w') : Settled w' := by
  induction hs with
  | refl => exact h
  | tail op n out l _ hr ih => exact (settled_runs hrec ih hr).1

/-- After each operation of a sequential run, returned or raised, firewall and database agree,
whichever calls, statements and COMMITs have failed; and a user operation that raises has left all
tables as they were. -/
theorem sequence_agreement (ok : Allow Action Choice State) (hrec : Recovers ok) (w w₁ w₂ : World)
    (hw : Settled w) (hseq : Sequence ok w w₁) (op : Op) (n : Nat) (out : Except Err Unit) (l : Own)
    (hrun : sem.Runs ok op.program (w₁, Own.idle n) out (w₂, l)) :
    Agreement w₂ ∧ (op.isUser = true → ∀ e, out = .error e → w₂.db = w₁.db) := by
  obtain ⟨h, hdb⟩ := settled_runs hrec (hseq.settled hrec hw) hrun
  exact ⟨h.agree, hdb⟩

/-- Anything fails but the sync after a rollback. -/
def recovering (c : Choice) {β : Type} (a : Action β) (s : State) : Bool :=
  !(s.2.owes && a.isSync && c.result = .raised)

theorem recovers_recovering : Recovers fun c {_} a s => recovering c a s = true := by
  intro c s β a ho ha hok hr
  simp [recovering, ho, ha, hr] at hok

/-- `create_user` whose `unblock` opens the port and then fails, and the sync after it. -/
def createFails : List Choice :=
  [.time 0] ++ succeed 4 ++ [.inputs ⟨[0, 0], []⟩, .fail "wppctl" true] ++ succeed 7

def samplePool : Op := .maintain sampleConfig sampleSizing (some 1)

theorem createFails_runs :
    ((sem.play recovering (growOnce ((List.range 16).map sampleToken)) samplePool.program
        (World.initial, Own.idle 0)).bind fun x =>
      (sem.play recovering createFails (Op.createUser sampleUser).program (x.2.1, Own.idle 0)).map
        fun y =>
        (x.1.outcome?, y.1.outcome?)) = some (some (.ok ()), some (.error (.system "wppctl"))) := by
  decide +kernel

theorem sequence_agreement_createFails :
    ∃ w₁ w₂ : World, Sequence (fun c {_} a s => recovering c a s = true) World.initial w₁ ∧
    Agreement w₂ ∧ w₂.db = w₁.db := by
  obtain ⟨⟨p, w₁, l₁⟩, h₁, hr⟩ := Option.bind_eq_some_iff.1 createFails_runs
  obtain ⟨⟨q, w₂, l₂⟩, h₂, hr⟩ := Option.map_eq_some_iff.1 hr
  obtain ⟨hp, hq⟩ := Prod.mk.injEq _ _ _ _ ▸ hr
  have hp := Prog.outcome?_eq_some.1 hp
  have hq := Prog.outcome?_eq_some.1 hq
  subst hp hq
  have hseq := Sequence.tail samplePool 0 (.ok ()) l₁ (.refl World.initial) (Sem.Steps.of_play h₁)
  have h := sequence_agreement _ recovers_recovering World.initial w₁ w₂ settled_initial hseq
      (.createUser sampleUser) 0 _ l₂
    (Sem.Steps.of_play h₂)
  exact ⟨w₁, w₂, hseq, h.1, h.2 rfl _ rfl⟩

end WebProxyPanel
