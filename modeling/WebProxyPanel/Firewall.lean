import WebProxyPanel.Global
/-!
# Firewall and database

`Agreement` is what all the firewall calls are for. Between two COMMITs it need not hold; what
always holds is `FwInv`:

* a port that the open transaction has named is as its last call made it,
* any other one is as the committed database says, unless a process still owes the sync after a
  rollback,
* once the holder of the pool lock has replaced the table, the slots of inactive shards are blocked.

A step keeps it if a table replacement outside a transaction is not out of date, and no COMMIT
follows one that undid a call of its transaction (`Timely`).
-/

namespace WebProxyPanel
open Effects

/-- The port of a slot on an active shard is open iff the slot is assigned to a device of an enabled
user. -/
def Agreement (w : World) : Prop :=
  ∀ s ∈ w.db.slots, OnActive w.db s →
    (s.port ∉ w.blocked ↔ s.status = .assigned ∧ HasEnabledUser w.db s)

instance (w : World) : Decidable (Agreement w) := by unfold Agreement; infer_instance

theorem agreement_iff {w : World} (h : Inv w.db) :
    Agreement w ↔ ∀ s ∈ w.db.slots, OnActive w.db s →
      (s.port ∈ w.blocked ↔ s.port ∈ blockedSet w.db) := by
  have key : ∀ s ∈ w.db.slots, OnActive w.db s →
      ((s.port ∉ w.blocked ↔ s.status = .assigned ∧ HasEnabledUser w.db s) ↔
      (s.port ∈ w.blocked ↔ s.port ∈ blockedSet w.db)) := by
    intro s hs ha
    rw [h.mem_blockedSet hs]
    simp only [IsOpen, ha, true_and]
    tauto
  exact forall_congr' fun s => forall_congr' fun hs => forall_congr' fun ha => key s hs ha

/-! ## Table replacements -/

variable {ι : Type} [DecidableEq ι]

/-- A table loaded now would not be out of date, but for the ports that the open transaction has
named. -/
structure LoadsRight (w : World) (ls : ι → Own) (ports blocked : List Int) : Prop where
  active : ∀ s ∈ w.db.slots, OnActive w.db s → s.port ∉ w.namedPorts →
    (s.port ∈ World.loadedSet ports blocked ↔ s.port ∈ blockedSet w.db)
  inactive : ∀ j, (ls j).synced = true → ∀ s ∈ w.db.slots, ¬ OnActive w.db s →
    s.port ∈ World.loadedSet ports blocked

theorem mem_loadedSet {ports blocked : List Int} {p : Int} :
    p ∈ World.loadedSet ports blocked ↔ p ∈ blocked ∧ p ∈ ports := by
  simp [World.loadedSet]

theorem mem_allPorts {db : DB} {s : Slot} (hs : s ∈ db.slots) : s.port ∈ allPorts db :=
  List.mem_map_of_mem (Table.mem_orderBy.2 hs)

theorem mem_loadedSet_now {db : DB} {s : Slot} (hs : s ∈ db.slots) :
    s.port ∈ World.loadedSet (allPorts db) (blockedPorts db) ↔ s.port ∈ blockedSet db := by
  rw [mem_loadedSet, blockedSet, List.mem_toFinset]
  exact and_iff_left (mem_allPorts hs)

theorem Inv.inactive_blocked {db : DB} (h : Inv db) {s : Slot} (hs : s ∈ db.slots)
    (hna : ¬ OnActive db s) :
    s.port ∈ blockedSet db := (h.mem_blockedSet hs).2 fun ho => hna ho.2.1

omit [DecidableEq ι] in
theorem loadsRight_now {w : World} (h : Inv w.db) (ls : ι → Own) :
    LoadsRight w ls (allPorts w.db) (blockedPorts w.db) where
  active _ hs _ _ := mem_loadedSet_now hs
  inactive _ _ _ hs hna := (mem_loadedSet_now hs).2 (h.inactive_blocked hs hna)

/-! ## The invariant -/

structure FwInv (w : World) (ls : ι → Own) : Prop where
  named : ∀ tx, w.writer = some tx → tx.failed = false → w.overwritten = false →
    ∀ p ∈ tx.issued.flatMap FwCall.ports, (p ∈ w.blocked ↔ p ∈ runCalls tx.issued ∅)
  rest : (∃ j, (ls j).owes = true) ∨ ∀ s ∈ w.db.slots, OnActive w.db s → s.port ∉ w.namedPorts →
    (s.port ∈ w.blocked ↔ s.port ∈ blockedSet w.db)
  inactive : ∀ j, (ls j).synced = true → ∀ s ∈ w.db.slots, ¬ OnActive w.db s → s.port ∈ w.blocked
  holder : ∀ j, (ls j).synced = true → (ls j).locked = true

/-- What a step must not do: load a table that is out of date, or commit what a replacement has
undone. -/
structure Timely (ok : Allow Action Choice State) (m : Mode) (w : World) (ls : ι → Own) (i : ι) :
    Prop where
  replace : ∀ c ports blocked, guard m w (ls i) (.ctlReplace ports blocked) →
    ok c (.ctlReplace ports blocked) (w, ls i) → (ls i).inTx = false → LoadsRight w ls ports blocked
  commit : (ls i).inTx = true → ok .ok .commit (w, ls i) → w.overwritten = false

section FwInv
variable {ok : Allow Action Choice State} {m : Mode} {w w' : World} {ls : ι → Own} {i : ι}
  {l' : Own}

theorem namedPorts_of_writer {tx : Tx} (h : w.writer = some tx) :
    w.namedPorts = tx.issued.flatMap FwCall.ports := by
  simp [World.namedPorts, h]

theorem namedPorts_of_none (h : w.writer = none) : w.namedPorts = [] :=
  by simp [World.namedPorts, h]

theorem owes_update (hl : (ls i).owes = true → l'.owes = true) (h : ∃ j, (ls j).owes = true) :
    ∃ j, (Function.update ls i l' j).owes = true := by
  obtain ⟨j, hj⟩ := h
  refine ⟨j, ?_⟩
  by_cases hji : j = i
  · subst hji
    rw [Function.update_self]
    exact hl hj
  · rw [Function.update_of_ne hji]
    exact hj

/-- A process that has replaced the table had done so before, or is the one that has just moved. -/
theorem synced_update {j : ι} (h : (Function.update ls i l' j).synced = true) :
    (j = i ∧ l'.synced = true) ∨ (j ≠ i ∧ (ls j).synced = true) := by
  by_cases hji : j = i
  · rw [hji, Function.update_self] at h
    exact .inl ⟨hji, h⟩
  · rw [Function.update_of_ne hji] at h
    exact .inr ⟨hji, h⟩

theorem FwInv.holder_update (h : FwInv w ls) (hlk : l'.synced = true → l'.locked = true) (j : ι)
    (hj : (Function.update ls i l' j).synced = true) :
    (Function.update ls i l' j).locked = true := by
  rcases synced_update hj with ⟨rfl, hl⟩ | ⟨hji, hl⟩
  · rw [Function.update_self]
    exact hlk hl
  · rw [Function.update_of_ne hji]
    exact h.holder j hl

/-- A step that leaves database, table and calls alone. -/
theorem FwInv.keep (h : FwInv w ls) (hdb : w'.db = w.db) (hb : w'.blocked = w.blocked)
    (hn : w'.namedPorts = w.namedPorts)
    (hw : ∀ tx', w'.writer = some tx' → tx'.failed = false → w'.overwritten = false →
      tx'.issued = [] ∨ ∃ tx, w.writer = some tx ∧ tx.failed = false ∧ w.overwritten = false ∧
        tx'.issued = tx.issued)
    (ho : l'.owes = (ls i).owes) (hs : l'.synced = true → (ls i).synced = true)
    (hlk : l'.synced = true → l'.locked = true) :
    FwInv w' (Function.update ls i l') where
  named := by
    intro tx' htx' hf hov p hp
    rcases hw tx' htx' hf hov with hnil | ⟨tx, htx, hf₀, hov₀, hi⟩
    · simp [hnil] at hp
    · rw [hb, hi]
      exact h.named tx htx hf₀ hov₀ p (hi ▸ hp)
  rest := by
    rw [hdb, hb, hn]
    exact h.rest.imp_left (owes_update (fun hx => ho.trans hx))
  inactive := by
    intro j hj
    rw [hdb, hb]
    rcases synced_update hj with ⟨rfl, hl⟩ | ⟨-, hl⟩
    · exact h.inactive j (hs hl)
    · exact h.inactive j hl
  holder := h.holder_update hlk

theorem FwInv.begin_ (h : FwInv w ls) (hw : w.writer = none) (es : List Entry) :
    FwInv w.begin_ (Function.update ls i ({ ls i with inTx := true }.note es)) := by
  refine h.keep rfl rfl ?_ (fun tx' htx' _ _ => .inl ?_) rfl (fun hs => hs) (h.holder i)
  · rw [namedPorts_of_none hw]
    simp [World.namedPorts]
  · rw [← Option.some.inj htx']

theorem FwInv.statements (h : FwInv w ls) {tx tx' : Tx} (hw : w.writer = some tx)
    (hi : tx'.issued = tx.issued) (hf : tx'.failed = false → tx.failed = false) (es : List Entry) :
    FwInv { w with writer := some tx' } (Function.update ls i ((ls i).note es)) := by
  refine h.keep rfl rfl ?_ (fun tx₁ htx₁ hf₁ hov => .inr ⟨tx, hw, ?_, hov, ?_⟩) rfl
    (fun hs => hs) (h.holder i)
  · rw [namedPorts_of_writer hw, ← hi]
    exact namedPorts_of_writer rfl
  · rw [← Option.some.inj htx₁] at hf₁
    exact hf hf₁
  · rw [← Option.some.inj htx₁]
    exact hi

/-- What the calls of a rolled back transaction have changed is owed. -/
theorem FwInv.rollback (h : FwInv w ls) {tx : Tx} (hw : w.writer = some tx) (es : List Entry) :
    FwInv w.rollback (Function.update ls i (((ls i).rolledBack tx).note es)) where
  named := by simp
  rest := by
    by_cases hnil : tx.issued = []
    · have hnone : w.namedPorts = [] := by rw [namedPorts_of_writer hw, hnil]; rfl
      rcases h.rest with ho | hr
      · exact .inl (owes_update (fun hx => by simp [hx]) ho)
      · refine .inr fun s hs ha _ => hr s hs ha ?_
        simp [hnone]
    · refine .inl ⟨i, ?_⟩
      rw [Function.update_self]
      simp [hnil]
  inactive := by
    intro j hj
    rcases synced_update hj with ⟨rfl, hl⟩ | ⟨-, hl⟩
    · exact h.inactive j hl
    · exact h.inactive j hl
  holder := h.holder_update (h.holder i)

/-- A call decides what becomes of the ports it names, and leaves the others. -/
theorem FwCall.mem_run_of_mem {call : FwCall} {f g : Finset Int} {p : Int} (hp : p ∈ call.ports) :
    p ∈ call.run f ↔ p ∈ call.run g := by
  rw [FwCall.mem_run, FwCall.mem_run]
  cases call <;> simp_all [FwCall.ports]

theorem FwCall.mem_run_of_notMem {call : FwCall} {f : Finset Int} {p : Int} (hp : p ∉ call.ports) :
    p ∈ call.run f ↔ p ∈ f := by
  rw [FwCall.mem_run]
  cases call <;> simp_all [FwCall.ports]

/-- Nothing but an `unblock` opens a port. -/
theorem FwCall.mem_run_of_notMem_opens {call : FwCall} {f : Finset Int} {p : Int}
    (hp : p ∉ call.opens) (hf : p ∈ f) : p ∈ call.run f := by
  rw [FwCall.mem_run]
  cases call <;> simp_all [FwCall.opens]

theorem FwInv.fwCall (hm : Mutex w ls) (h : FwInv w ls) {call : FwCall} {fails done : Bool}
    (hg : guard m w (ls i) (.fwCall call)) (hdone : fails = false → done = true) (es : List Entry) :
    FwInv (w.fwCall call fails done) (Function.update ls i (((ls i).called call).note es)) := by
  obtain ⟨tx, hw⟩ := Option.ne_none_iff_exists'.1 (hm.writer.2 ⟨i, hg.1⟩)
  have hw' : (w.fwCall call fails done).writer =
      some { tx with issued := tx.issued ++ [call], failed := tx.failed || fails } := by
    simp [hw]
  have hnamed : (w.fwCall call fails done).namedPorts = w.namedPorts ++ call.ports := by
    rw [namedPorts_of_writer hw', namedPorts_of_writer hw]
    simp
  have hother : ∀ p, p ∉ call.ports → (p ∈ (w.fwCall call fails done).blocked ↔ p ∈ w.blocked) := by
    intro p hp
    rw [World.fwCall_blocked]
    split
    · exact FwCall.mem_run_of_notMem hp
    · exact Iff.rfl
  exact {
    named := by
      intro tx' htx' hf hov p hp
      rw [hw', Option.some.injEq] at htx'
      subst htx'
      simp only [Bool.or_eq_false_iff] at hf
      rw [runCalls_append, runCalls_cons, runCalls_nil]
      by_cases hpc : p ∈ call.ports
      · rw [World.fwCall_blocked, if_pos (hdone hf.2)]
        exact FwCall.mem_run_of_mem hpc
      · rw [hother p hpc, FwCall.mem_run_of_notMem hpc]
        refine h.named tx hw hf.1 hov p ?_
        simpa [hpc] using hp
    rest := by
      refine h.rest.imp (owes_update fun hx => hx) fun hr s hs ha hp => ?_
      rw [hnamed, List.mem_append, not_or] at hp
      rw [hother s.port hp.2]
      exact hr s hs ha hp.1
    inactive := by
      intro j hj s hs hna
      have hold : s.port ∈ w.blocked := by
        rcases synced_update hj with ⟨rfl, hl⟩ | ⟨-, hl⟩
        · exact h.inactive j hl s hs hna
        · exact h.inactive j hl s hs hna
      rw [World.fwCall_blocked]
      split
      · refine FwCall.mem_run_of_notMem_opens (fun hp => hna ?_) hold
        -- what is unblocked belongs to an active shard
        obtain ⟨s', hs', ha', hport⟩ := hg.2.2.2 _ hp
        rwa [Table.eq_of_key hm.world.1.consistent.slotPort hs' hs hport] at ha'
      · exact hold
    holder := h.holder_update (h.holder i) }

theorem FwInv.replace (hm : Mutex w ls) (h : FwInv w ls) {ports blocked : List Int}
    (hg : guard m w (ls i) (.ctlReplace ports blocked))
    (hright : (ls i).inTx = false → LoadsRight w ls ports blocked) {l₁ : Own}
    (hl : l₁ = ls i ∨ l₁ = (ls i).replaced) (es : List Entry) :
    FwInv (w.replace (ls i).inTx ports blocked) (Function.update ls i (l₁.note es)) := by
  have hlk : l₁.locked = (ls i).locked := by rcases hl with rfl | rfl <;> rfl
  have hsync : l₁.synced = true → (ls i).synced = true ∨ (ls i).inTx = true := by
    intro hs
    rcases hl with rfl | rfl
    · exact .inl hs
    · simpa using hs
  have hnow : (ls i).inTx = true → ports = allPorts w.db ∧ blocked = blockedPorts w.db := fun ht =>
    ⟨(hg.2 (.inl ht)).1, (hg.2 (.inl ht)).2.1⟩
  have hloads : LoadsRight w ls ports blocked := by
    cases ht : (ls i).inTx with
    | false => exact hright ht
    | true =>
      rw [(hnow ht).1, (hnow ht).2]
      exact loadsRight_now hm.world.1 ls
  exact {
    named := by
      intro tx htx hf hov p hp
      cases ht : (ls i).inTx with
      | true =>
        -- inside the own transaction, before any call
        have hown : ownTx (w, ls i) = some tx := by simpa [ownTx, ht] using htx
        simp [(hg.2 (.inl ht)).2.2 tx hown] at hp
      | false =>
        rw [ht] at hov
        simp only [World.replace_overwritten, Bool.not_false, Bool.true_and, Bool.or_eq_false_iff,
          List.any_eq_false] at hov
        have hw : w.writer = some tx := htx
        have hsame := hov.2 p (by rw [namedPorts_of_writer hw]; exact hp)
        rw [World.replace_blocked, ← h.named tx hw hf hov.1 p hp]
        simpa using hsame
    rest := .inr hloads.active
    inactive := by
      intro j hj s (hs : s ∈ w.db.slots) hna
      rcases synced_update hj with ⟨rfl, hl'⟩ | ⟨-, hl'⟩
      · rcases hsync hl' with hs' | ht
        · exact hloads.inactive j hs' s hs hna
        · rw [World.replace_blocked, (hnow ht).1, (hnow ht).2, mem_loadedSet_now hs]
          exact hm.world.1.inactive_blocked hs hna
      · exact hloads.inactive j hl' s hs hna
    holder := by
      refine h.holder_update fun hs => ?_
      rw [Own.note_locked, hlk]
      rcases hsync hs with hs' | ht
      · exact h.holder i hs'
      · exact hg.1 ht }

/-- A COMMIT makes the database what the calls have made the table. -/
theorem FwInv.commit (hm : Mutex w ls) (h : FwInv w ls) {tx : Tx} (htx : ownTx (w, ls i) = some tx)
    (hc : CommitOk m.moves (ls i) w tx) (hov : w.overwritten = false) (es : List Entry) :
    FwInv (w.commit tx) (Function.update ls i ({ ls i with inTx := false }.note es)) := by
  have hw := (inTx_of_ownTx htx).2
  exact {
    named := by simp
    rest := by
      refine h.rest.imp (owes_update fun hx => hx) fun hr s' hs' ha' _ => ?_
      have hstep := hc.fw s' hs' ha'
      by_cases hp : s'.port ∈ tx.issued.flatMap FwCall.ports
      · rw [World.commit_db, World.commit_blocked, ← hstep, h.named tx hw hc.whole hov _ hp]
        exact mem_runCalls_of_mem hp
      · rw [mem_runCalls_of_notMem hp] at hstep
        rw [World.commit_db, World.commit_blocked, ← hstep]
        rcases hc.active s' hs' ha' with ⟨s, hs, hport, ha⟩ | ⟨hsy, hb, s, hs, hport, hna⟩
        · rw [← hport]
          refine hr s hs ha ?_
          rw [namedPorts_of_writer hw, hport]
          exact hp
        · -- a new shard, blocked since the holder's sync
          rw [← hport]
          refine iff_of_true (h.inactive i hsy s hs hna) ?_
          exact hm.world.1.inactive_blocked hs hna
    inactive := by
      intro j hj s' hs' hna'
      have hold : (ls j).synced = true := by
        rcases synced_update hj with ⟨rfl, hl⟩ | ⟨-, hl⟩
        · exact hl
        · exact hl
      have hback : OldInactive w.db tx.copy := by
        cases hlk : (ls i).locked with
        | false => exact .frame (hc.frame hlk)
        | true =>
          have hij : j = i := hm.lock j i (h.holder j hold) hlk
          exact hc.inactive (hij ▸ hold)
      obtain ⟨s, hs, hport, hna⟩ := hback s' hs' hna'
      rw [World.commit_blocked, ← hport]
      exact h.inactive j hold s hs hna
    holder := h.holder_update (h.holder i) }

/-- Every timely step keeps the invariant. -/
theorem FwInv.does (hm : Mutex w ls) (h : FwInv w ls) (ht : Timely ok m w ls i)
    (hd : Does ok m w (ls i) w' l') : FwInv w' (Function.update ls i l') := by
  have hsame : ∀ tx', w.writer = some tx' → tx'.failed = false → w.overwritten = false →
      tx'.issued = [] ∨
      ∃ tx, w.writer = some tx ∧ tx.failed = false ∧ w.overwritten = false ∧
      tx'.issued = tx.issued :=
    fun tx' hw hf ho => .inr ⟨tx', hw, hf, ho, rfl⟩
  cases hd with
  | nothing es => exact h.keep rfl rfl rfl hsame rfl (fun hs => hs) (h.holder i)
  | begin_ es hw _ => exact h.begin_ hw es
  | statements tx tx' es htx hi hf _ => exact h.statements (inTx_of_ownTx htx).2 hi hf es
  | commit tx es htx hc hok => exact h.commit hm htx hc (ht.commit (inTx_of_ownTx htx).1 hok) es
  | rollback tx es htx => exact h.rollback (inTx_of_ownTx htx).2 es
  | fwCall call fails done es hg hdone => exact h.fwCall hm hg hdone es
  | replace ports blocked l₁ es hg hok hl =>
    obtain ⟨c, hok⟩ := hok
    exact h.replace hm hg (ht.replace c ports blocked hg hok) hl es
  | file p data es _ _ => exact h.keep rfl rfl rfl hsame rfl (fun hs => hs) (h.holder i)
  | units u es _ => exact h.keep rfl rfl rfl hsame rfl (fun hs => hs) (h.holder i)
  | lock es _ _ =>
    exact h.keep rfl rfl rfl hsame rfl (fun hs => by simp at hs) (fun hs => by simp at hs)
  | unlock es _ _ =>
    exact h.keep rfl rfl rfl hsame rfl (fun hs => by simp at hs) (fun hs => by simp at hs)

omit [DecidableEq ι] in
/-- Nothing open and nothing owed: the table is right. -/
theorem FwInv.agreement (hm : Mutex w ls) (h : FwInv w ls) (htx : ∀ j, (ls j).inTx = false)
    (ho : ∀ j, (ls j).owes = false) : Agreement w := by
  have hw : w.writer = none := by
    by_contra hne
    obtain ⟨j, hj⟩ := hm.writer.1 hne
    rw [htx j] at hj
    simp at hj
  rw [agreement_iff hm.world.1]
  intro s hs ha
  rcases h.rest with ⟨j, hj⟩ | hr
  · rw [ho j] at hj
    simp at hj
  · exact hr s hs ha (by simp [namedPorts_of_none hw])

end FwInv

end WebProxyPanel
