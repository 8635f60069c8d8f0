import Mathlib.Algebra.BigOperators.Group.List.Basic
import WebProxyPanel.PoolSpec
/-!
# What `counts` counts (pool.py:61-80)

In a database that satisfies the invariant, `counts` partitions the slots of the active shards,
sixteen to a shard, and its assigned slots are as many as the devices.
-/

namespace WebProxyPanel
open Table

variable {db : DB}

/-- The join with `shards` picks the slots of active shards. -/
theorem countStatus_eq (h : Inv db) (st : Status) :
    countStatus st db = db.slots.countP fun s => decide (OnActive db s) &&
      decide (s.status = st) := by
  obtain ⟨shard, hshard, heq⟩ := slotsWithShard_eq h.consistent
  unfold countStatus
  rw [heq, List.filter_map, List.length_map, ← List.countP_eq_length_filter]
  refine List.countP_congr fun s hs => ?_
  obtain ⟨hm, hid⟩ := hshard s hs
  have hact : OnActive db s ↔ (shard s).active = 1 := by
    constructor
    · rintro ⟨sh, hsh, hid', ha⟩
      rw [eq_of_key h.consistent.shardId hm hsh (hid.trans hid'.symm)]
      exact ha
    · exact fun ha => ⟨shard s, hm, hid, ha⟩
  simp [hact]

/-- Every shard has its sixteen slots. -/
theorem active_slots (h : Inv db) : (db.slots.countP fun s => decide (OnActive db s)) =
    (db.shards.filter fun sh => sh.active = 1).length * shardSize := by
  -- whether a slot is on an active shard is a matter of its shard id
  have hkey : (db.slots.countP fun s => decide (OnActive db s)) =
      (db.slots.map Slot.key).countP fun k =>
      decide (∃ sh ∈ db.shards, sh.id = k.1 ∧ sh.active = 1) := by
    rw [List.countP_map]
    rfl
  rw [hkey, h.layout.keys, List.countP_flatMap]
  have hshard : ∀ sh ∈ db.shards,
      ((shardKeys sh.id).countP fun k =>
      decide (∃ sh' ∈ db.shards, sh'.id = k.1 ∧ sh'.active = 1)) =
      if sh.active = 1 then shardSize else 0 := by
    intro sh hsh
    have hone : (∃ sh' ∈ db.shards, sh'.id = sh.id ∧ sh'.active = 1) ↔ sh.active = 1 := by
      constructor
      · rintro ⟨sh', hsh', hid, ha⟩
        rw [eq_of_key h.consistent.shardId hsh hsh' hid.symm]
        exact ha
      · exact fun ha => ⟨sh, hsh, rfl, ha⟩
    have hall : ∀ k ∈ shardKeys sh.id, decide (∃ sh' ∈ db.shards, sh'.id = k.1 ∧ sh'.active = 1) =
        decide (sh.active = 1) := by
      intro k hk
      rw [(mem_shardKeys.1 hk).1]
      exact decide_eq_decide.2 hone
    by_cases ha : sh.active = 1
    · rw [if_pos ha, List.countP_eq_length.2 fun k hk => by rw [hall k hk]; simpa using ha]
      simp [shardKeys]
    · rw [if_neg ha, List.countP_eq_zero]
      intro k hk
      rw [hall k hk]
      simpa using ha
  have hsum : db.shards.map
      ((List.countP fun k => decide (∃ sh' ∈ db.shards, sh'.id = k.1 ∧ sh'.active = 1)) ∘
      fun sh => shardKeys sh.id) = db.shards.map fun sh => if sh.active = 1 then shardSize else 0 :=
    List.map_congr_left hshard
  rw [hsum, List.sum_map_ite]
  simp

/-- Free, assigned and dirty slots together. -/
theorem counts_total (h : Inv db) :
    (counts db).free + (counts db).assigned + (counts db).dirty = (counts db).slots := by
  change countStatus .free db + countStatus .assigned db + countStatus .dirty db = _ * shardSize
  rw [countStatus_eq h, countStatus_eq h, countStatus_eq h, ← active_slots h]
  -- each slot has one of the three statuses
  induction db.slots with
  | nil => rfl
  | cons s xs ih =>
    simp only [List.countP_cons]
    rw [← ih]
    cases s.status <;> by_cases ha : OnActive db s <;> simp [ha] <;> omega

/-- Assigned slots and devices are matched one to one. -/
theorem counts_assigned (h : Inv db) : (counts db).assigned = db.devices.length := by
  have hfilter : countStatus .assigned db =
      ((db.slots.filter fun s => decide (s.status = .assigned)).map (·.id)).length := by
    rw [countStatus_eq h, List.length_map, ← List.countP_eq_length_filter]
    refine List.countP_congr fun s hs => ?_
    simp only [Bool.and_eq_true, decide_eq_true_eq]
    refine ⟨fun hx => hx.2, fun hst => ⟨?_, hst⟩⟩
    by_contra hna
    rw [h.inactive s hs hna] at hst
    simp at hst
  change countStatus .assigned db = _
  have hdevices : db.devices.length = (db.devices.map (·.slotId)).length :=
    List.length_map _ |>.symm
  rw [hfilter, hdevices]
  refine List.Perm.length_eq ((List.perm_ext_iff_of_nodup ?_ h.consistent.deviceSlot).2 fun k => ?_)
  · exact List.Nodup.sublist (List.filter_sublist.map _) h.consistent.slotId
  · constructor
    · intro hk
      obtain ⟨s, hs, rfl⟩ := List.mem_map.1 hk
      obtain ⟨hs, hst⟩ := List.mem_filter.1 hs
      obtain ⟨d, hd, hds, -⟩ := h.linked.assigned s hs (by simpa using hst)
      exact List.mem_map.2 ⟨d, hd, hds⟩
    · intro hk
      obtain ⟨d, hd, rfl⟩ := List.mem_map.1 hk
      obtain ⟨s, hs, hid, hst⟩ := h.linked.device d hd
      exact List.mem_map.2 ⟨s, List.mem_filter.2 ⟨hs, by simpa using hst⟩, hid⟩

end WebProxyPanel
