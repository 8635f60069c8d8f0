import WebProxyPanel.Filled
/-!
# Rotation (`stage_dirty` and `create_shards` in one transaction)

The dirty slots and the growth of one automatic `maintain` are staged together. Where the growth is
too much for the limit of the pool, `create_shards` raises, and the rotation is rolled back with it.

* `Room` — the pool may still grow by what is missing.
* `Rotated` — what a window does to the dirty slots.
-/

namespace WebProxyPanel
open Table Effects

/-! ## Room -/

variable {db db' : DB}

/-- The shards that the limit still allows lift the clean slots to the low-water mark. -/
def Room (db : DB) : Prop :=
  (lowWater db : Int) ≤ clean db + shardSize * (maxShards - (counts db).shards)

instance (db : DB) : Decidable (Room db) := by
  unfold Room
  infer_instance

theorem active_le (h : Inv db) : ((counts db).shards : Int) ≤ maxShards := by
  have := (inv_aborted h).layout.limit
  rwa [aborted_length h] at this

theorem room_iff (h : Inv db) : Room db ↔ ¬ Exceeds none db := by
  have hle := active_le h
  have hsize : shardSize = 16 := rfl
  unfold Room Exceeds wanted
  rw [automaticGrowth_eq, lowWater_eq]
  unfold shortage
  rw [hsize]
  push_cast
  omega

/-! ## Rotated -/

/-- Every dirty slot has become free, with a secret that no slot of an active shard had. -/
def Rotated (db db' : DB) : Prop :=
  ∀ s ∈ db.slots, s.status = .dirty → ∃ s' ∈ db'.slots, s'.id = s.id ∧ s'.status = .free ∧
  ∀ t ∈ db.slots, OnActive db t → s'.secret ≠ t.secret

theorem dirty_active (h : Inv db) {s : Slot} (hs : s ∈ db.slots) (hst : s.status = .dirty) :
    OnActive db s := by
  by_contra hna
  rw [h.inactive s hs hna] at hst
  simp at hst

/-- The commit of the staged rows rotates every dirty slot. -/
theorem rotated_committed (h : Inv db) {growShards : Option Int} {restart new : List Int}
    (hs : Stages growShards db restart new db') : Rotated db (committed db') := by
  have hst := hs.staged h
  intro s hmem hdirty
  obtain ⟨s₁, hmem₁, -, hrow⟩ := hst.kept s hmem (dirty_active h hmem hdirty)
  obtain ⟨hid, -, -, -, -, hstatus, -⟩ := noPending_eq_iff.1 hrow
  have hdirty₁ : s₁.status = .dirty := hstatus.trans hdirty
  cases hp : s₁.pendingSecret with
  | none => exact absurd hp (hst.dirty s₁ hmem₁ hdirty₁)
  | some v =>
    have hrow₁ := hs.inv.committed_some hmem₁ hp
    refine ⟨s₁.committed,
      mem_committed.2 ⟨s₁, hmem₁, rfl⟩, by
      rw [hrow₁]; exact hid, by rw [hrow₁], fun t ht hact => ?_⟩
    -- a pending secret is in no other column
    obtain ⟨t₁, ht₁, -, hrow₂⟩ := hst.kept t ht hact
    have hsecret : t₁.secret = t.secret := (noPending_eq_iff.1 hrow₂).2.2.2.2.1
    rw [hrow₁, ← hsecret]
    intro he
    exact (List.nodup_append.1 hs.inv.secrets).2.2 t₁.secret (List.mem_map.2 ⟨t₁, ht₁, rfl⟩) v
      (List.mem_filterMap.2 ⟨s₁, hmem₁, hp⟩) he.symm

/-- Where nothing changes, only a pool without dirty slots is rotated. -/
theorem rotated_self (h : Inv db) : Rotated db db ↔ ∀ s ∈ db.slots, s.status ≠ .dirty := by
  refine ⟨fun hr s hs hdirty => ?_, fun hnone s hs hdirty => absurd hdirty (hnone s hs)⟩
  obtain ⟨s', hs', hid, hfree, -⟩ := hr s hs hdirty
  rw [eq_of_key h.consistent.slotId hs' hs hid, hdirty] at hfree
  simp at hfree

/-! ## The window -/

/-- An automatic `maintain`, alone and with every call a success, comes to an end, and it turns
every dirty slot into a free one with a new secret if and only if there is none or there is room for
the growth that the low-water mark asks for. -/
theorem maintain_rotates_iff (cfg : Config) (sizing : Sizing) (w : World) (n : Nat) (hw : Resting w)
    (hlock : w.poolLock = false) :
    (∃ out s, sem.Runs noFault (maintain cfg sizing none) (w, Own.idle n) out s) ∧
    ∀ (out : Except Err Report) (w' : World) (l : Own),
      sem.Runs noFault (maintain cfg sizing none) (w, Own.idle n) out (w', l) →
      (Rotated w.db w'.db ↔ (∀ s ∈ w.db.slots, s.status ≠ .dirty) ∨ Room w.db) := by
  have hinv := hw.world.1
  obtain ⟨hruns, hends⟩ := maintain_noFault cfg sizing none n hw hlock
  refine ⟨hruns, fun out w' l hrun => ?_⟩
  have hend := hends out w' l hrun
  rcases out with e | report
  · -- the limit: the transaction was rolled back
    obtain ⟨-, hexceeds, hpool⟩ := hend
    have hdb : w'.db = w.db := congrArg Pool.db hpool
    have hroom : ¬ Room w.db := fun hroom => (room_iff hinv).1 hroom hexceeds
    rw [hdb, rotated_self hinv]
    exact ⟨.inl, fun h => h.resolve_right hroom⟩
  · obtain ⟨restart, new, db', events, hs, hdb, -⟩ := Maintained.stages (v := w.pool) hinv hend
    have hs : Stages none w.db restart new db' := hs
    have hrotated : Rotated w.db w'.db := by
      rw [hdb]
      exact rotated_committed hinv hs
    exact iff_of_true hrotated (.inr ((room_iff hinv).2 (hs.not_exceeds hinv)))

/-- One shard with a dirty slot. -/
theorem maintain_rotates_one :
    ∃ (w w' : World) (out : Except Err Report) (l : Own), Populated 1 0 w ∧
    (∃ s ∈ w.db.slots, s.status = .dirty) ∧
    sem.Runs noFault (maintain sampleConfig sampleSizing none) (w, Own.idle 0) out (w', l) ∧
      Rotated w.db w'.db := by
  obtain ⟨w, hw, hdirty⟩ := exists_dirty (n := 1) (k := 0) (by decide) (by decide)
  obtain ⟨⟨out, ⟨w', l⟩, hrun⟩, hrotates⟩ :=
    maintain_rotates_iff sampleConfig sampleSizing w 0 hw.resting hw.unlocked
  refine ⟨w, w', out, l, hw, hdirty, hrun, (hrotates out w' l hrun).2 (.inr ?_)⟩
  have hclean : clean w.db = 16 := hw.clean_eq
  unfold Room
  rw [lowWater_eq, hw.shards, hclean]
  decide

/-- The full pool: of 10000 slots 999 are not in use, one of them dirty, and the mark is 1000. -/
theorem maintain_stuck :
    ∃ (w w' : World) (e : Err) (l : Own), Populated 625 9001 w ∧
      (∃ s ∈ w.db.slots, s.status = .dirty) ∧
    sem.Runs noFault (maintain sampleConfig sampleSizing none) (w, Own.idle 0) (.error e) (w', l) ∧
      ¬ Rotated w.db w'.db := by
  obtain ⟨w, hw, s, hs, hdirty⟩ := exists_dirty (n := 625) (k := 9001) (by decide) (by decide)
  have hinv := hw.resting.world.1
  have hclean : clean w.db = 999 := by
    have := hw.clean_eq
    have hsize : shardSize = 16 := rfl
    rw [hsize] at this
    omega
  have hroom : ¬ Room w.db := by
    unfold Room
    rw [lowWater_eq, hw.shards, hclean]
    decide
  obtain ⟨⟨out, ⟨w', l⟩, hrun⟩, hends⟩ :=
    maintain_noFault sampleConfig sampleSizing none 0 hw.resting hw.unlocked
  rcases out with e | report
  · obtain ⟨-, -, hpool⟩ := hends _ w' l hrun
    have hdb : w'.db = w.db := congrArg Pool.db hpool
    refine ⟨w, w', e, l, hw, ⟨s, hs, hdirty⟩, hrun, ?_⟩
    rw [hdb, rotated_self hinv]
    exact fun hnone => hnone s hs hdirty
  · obtain ⟨restart, new, db', events, hstages, -⟩ :=
      Maintained.stages (v := w.pool) hinv (hends _ w' l hrun)
    exact absurd ((room_iff hinv).2 (Stages.not_exceeds hinv hstages)) hroom

end WebProxyPanel
