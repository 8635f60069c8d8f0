import WebProxyPanel.Invariant
import WebProxyPanel.Maintain
import WebProxyPanel.Wp
/-!
# What staging, aborting and committing do to the invariant

* `aborted` — `abort_staged` (pool.py:138-141): the active shards with their slots, no pending
  secret.
* `StageStep` — the first transaction of `maintain` (pool.py:328-338): slots of active shards change
  in their pending secret only, and everything else is on new inactive shards.
* `committed` — `commit_staged` (pool.py:131-135): a staged slot becomes free with its new secret,
  and every shard is active.
-/

namespace WebProxyPanel
open Table Sql

variable {db : DB} {D : String → Prop}

/-! ## Shards and their slots -/

/-- The slot's row but its pending secret. -/
def Slot.noPending (s : Slot) : Slot := { s with pendingSecret := none }

theorem noPending_eq_iff {s s' : Slot} :
    s'.noPending = s.noPending ↔ s'.id = s.id ∧ s'.shardId = s.shardId ∧
    s'.idx = s.idx ∧ s'.port = s.port ∧ s'.secret = s.secret ∧ s'.status = s.status ∧
      s'.deviceId = s.deviceId := by
  simp [Slot.noPending]

/-- The shard's id, and the position in it. -/
def Slot.key (s : Slot) : Int × Int := (s.shardId, s.idx)

/-- The keys of a complete shard. -/
def shardKeys (shard : Int) : List (Int × Int) :=
  (List.range shardSize).map fun i : Nat => (shard, (i : Int))

theorem Layout.keys (h : Layout db) :
    db.slots.map Slot.key = db.shards.flatMap fun sh => shardKeys sh.id := h.slots

theorem mem_shardKeys {shard : Int} {k : Int × Int} :
    k ∈ shardKeys shard ↔ k.1 = shard ∧ 0 ≤ k.2 ∧ k.2 < shardSize := by
  obtain ⟨a, b⟩ := k
  simp only [shardKeys, List.mem_map, List.mem_range, Prod.mk.injEq]
  constructor
  · rintro ⟨i, hi, rfl, rfl⟩
    exact ⟨rfl, by omega, by omega⟩
  · rintro ⟨rfl, h0, h1⟩
    exact ⟨b.toNat, by omega, rfl, by omega⟩

/-- A slot's shard, by the foreign key. -/
theorem Inv.shardOf (h : Inv db) {s : Slot} (hs : s ∈ db.slots) :
    ∃ sh ∈ db.shards, sh.id = s.shardId ∧ (sh.active = 0 ∨ sh.active = 1) ∧
      (OnActive db s ↔ sh.active = 1) := by
  obtain ⟨sh, hsh, hid⟩ := List.mem_map.1 (h.consistent.slotShard s hs)
  refine ⟨sh, hsh, hid, h.layout.activeBit sh hsh, ?_⟩
  constructor
  · rintro ⟨sh', hsh', hid', ha⟩
    rw [eq_of_key h.consistent.shardId hsh' hsh (hid'.trans hid.symm)] at ha
    exact ha
  · exact fun ha => ⟨sh, hsh, hid, ha⟩

theorem Inv.idx_bounds (h : Inv db) {s : Slot} (hs : s ∈ db.slots) :
    0 ≤ s.idx ∧ s.idx < shardSize := by
  have hk : s.key ∈ db.shards.flatMap fun sh => shardKeys sh.id := by
    rw [← h.layout.keys]
    exact List.mem_map_of_mem hs
  obtain ⟨sh, -, hk⟩ := List.mem_flatMap.1 hk
  exact (mem_shardKeys.1 hk).2

theorem Layout.mem_ids (h : Layout db) {k : Int} :
    k ∈ db.shards.map (·.id) ↔ 0 ≤ k ∧ k < db.shards.length := by
  rw [h.shardIds]
  simp only [List.mem_map, List.mem_range]
  constructor
  · rintro ⟨n, hn, rfl⟩
    omega
  · rintro ⟨h0, h1⟩
    exact ⟨k.toNat, by omega, by omega⟩

/-- Shards are stored in the order of their ids. -/
theorem Layout.pairwise (h : Layout db) : db.shards.Pairwise fun a b => a.id < b.id := by
  have : (db.shards.map (·.id)).Pairwise (· < ·) := by
    rw [h.shardIds]
    exact List.Pairwise.map _ (fun a b hab => by omega) List.pairwise_lt_range
  exact List.pairwise_map.1 this

/-! ## Abort -/

def aborted (db : DB) : DB := ((db.clearPending).dropInactiveSlots).dropInactiveShards

theorem mem_inactiveShards (h : Inv db) {s : Slot} (hs : s ∈ db.slots) :
    s.shardId ∈ inactiveShards db ↔ ¬ OnActive db s := by
  obtain ⟨sh, hsh, hid, hbit, hact⟩ := h.shardOf hs
  simp only [inactiveShards, List.mem_map, List.mem_filter, decide_eq_true_eq]
  rw [hact]
  constructor
  · rintro ⟨sh', ⟨hsh', h0⟩, hid'⟩
    rw [eq_of_key h.consistent.shardId hsh' hsh (hid'.trans hid.symm)] at h0
    omega
  · intro h1
    exact ⟨sh, ⟨hsh, by omega⟩, hid⟩

/-- Clearing pending secrets. -/
theorem mem_clearPending {s' : Slot} :
    s' ∈ db.clearPending.slots ↔ ∃ s ∈ db.slots, s' = s.noPending := by
  simp only [DB.clearPending, mem_update]
  refine exists_congr fun s => and_congr_right fun _ => ?_
  cases hp : s.pendingSecret with
  | none =>
    have : s.noPending = s := by simp [Slot.noPending, ← hp]
    simp [this, eq_comm]
  | some v => simp [Slot.noPending, eq_comm]

theorem clearPending_map {κ : Type} {g : Slot → κ} (hg : ∀ s : Slot, g s.noPending = g s) :
    db.clearPending.slots.map g = db.slots.map g := by
  refine map_update g ?_ _
  intro s _
  exact hg s

theorem clearPending_pending : db.clearPending.slots.filterMap (·.pendingSecret) = [] := by
  refine List.filterMap_eq_nil_iff.2 fun s' hs' => ?_
  obtain ⟨s, -, rfl⟩ := mem_clearPending.1 hs'
  rfl

theorem consistent_clearPending (h : db.Consistent) : db.clearPending.Consistent :=
  { h with
    slotId := by rw [clearPending_map fun _ => rfl]; exact h.slotId
    slotPort := by rw [clearPending_map fun _ => rfl]; exact h.slotPort
    slotSecret := by rw [clearPending_map fun _ => rfl]; exact h.slotSecret
    slotPending := by rw [clearPending_pending]; exact List.nodup_nil
    slotIdx := by rw [clearPending_map fun _ => rfl]; exact h.slotIdx
    slotShard := by
      intro s' hs'
      obtain ⟨s, hs, rfl⟩ := mem_clearPending.1 hs'
      exact h.slotShard s hs
    deviceSlotRef := by
      intro d hd
      rw [clearPending_map fun _ => rfl]
      exact h.deviceSlotRef d hd }

/-- The slots after an abort: those of active shards. -/
theorem mem_aborted (h : Inv db) {s' : Slot} :
    s' ∈ (aborted db).slots ↔ ∃ s ∈ db.slots, OnActive db s ∧ s' = s.noPending := by
  simp only [aborted, DB.dropInactiveShards, DB.dropInactiveSlots, mem_delete, mem_clearPending,
    decide_eq_false_iff_not]
  constructor
  · rintro ⟨⟨s, hs, rfl⟩, hk⟩
    exact ⟨s, hs, by_contra fun hna => hk ((mem_inactiveShards h hs).2 hna), rfl⟩
  · rintro ⟨s, hs, hact, rfl⟩
    exact ⟨⟨s, hs, rfl⟩, fun hm => (mem_inactiveShards h hs).1 hm hact⟩

theorem mem_abortedShards (h : Inv db) {sh : Shard} :
    sh ∈ (aborted db).shards ↔ sh ∈ db.shards ∧ sh.active = 1 := by
  simp only [aborted, DB.dropInactiveShards, DB.dropInactiveSlots, DB.clearPending, mem_delete,
    decide_eq_false_iff_not]
  refine and_congr_right fun hsh => ?_
  have := h.layout.activeBit sh hsh
  omega

theorem onActive_aborted (h : Inv db) {s s' : Slot} (hid : s'.shardId = s.shardId) :
    OnActive (aborted db) s' ↔ OnActive db s := by
  simp only [OnActive, mem_abortedShards h, hid]
  constructor
  · rintro ⟨sh, ⟨hm, h1⟩, h2, h3⟩
    exact ⟨sh, hm, h2, h3⟩
  · rintro ⟨sh, hm, h2, h3⟩
    exact ⟨sh, ⟨hm, h3⟩, h2, h3⟩

theorem aborted_slots_sublist (db : DB) : (aborted db).slots.Sublist db.clearPending.slots :=
  delete_sublist _ _

theorem aborted_shards_sublist (db : DB) : (aborted db).shards.Sublist db.shards :=
  delete_sublist _ _

/-- The devices' slots are on active shards, so none of them goes. -/
theorem consistent_dropInactiveSlots (h : Inv db) :
    (db.clearPending.dropInactiveSlots).Consistent := by
  have hc := consistent_clearPending h.consistent
  have hsub : (db.clearPending.dropInactiveSlots).slots.Sublist db.clearPending.slots :=
    delete_sublist _ _
  exact { hc with
    slotId := (hsub.map _).nodup hc.slotId
    slotPort := (hsub.map _).nodup hc.slotPort
    slotSecret := (hsub.map _).nodup hc.slotSecret
    slotPending := (hsub.filterMap _).nodup hc.slotPending
    slotIdx := (hsub.map _).nodup hc.slotIdx
    slotShard := fun s hs => hc.slotShard s (hsub.subset hs)
    deviceSlotRef := by
      intro d hd
      obtain ⟨s, hs, hid, hst⟩ := h.linked.device d hd
      have hact : OnActive db s := by
        by_contra hna
        rw [h.inactive s hs hna] at hst
        simp at hst
      refine List.mem_map.2 ⟨s.noPending, mem_delete.2 ⟨mem_clearPending.2 ⟨s, hs, rfl⟩, ?_⟩, hid⟩
      simp only [decide_eq_false_iff_not]
      exact fun hm => (mem_inactiveShards h hs).1 hm hact }

theorem consistent_aborted (h : Inv db) : (aborted db).Consistent := by
  have hc := consistent_dropInactiveSlots h
  have hsub := aborted_shards_sublist db
  exact { hc with
    shardId := (hsub.map _).nodup h.consistent.shardId
    shardStats := (hsub.map _).nodup h.consistent.shardStats
    slotShard := by
      intro s' hs'
      obtain ⟨s, hs, hact, rfl⟩ := (mem_aborted h).1 hs'
      obtain ⟨sh, hsh, hid, ha⟩ := hact
      exact List.mem_map.2 ⟨sh, (mem_abortedShards h).2 ⟨hsh, ha⟩, hid⟩ }

/-- Aborting leaves the active shards, which come first, with all their slots. -/
theorem layout_aborted (h : Inv db) : Layout (aborted db) := by
  have hl := h.layout
  have hfirst : db.shards.Pairwise fun a b =>
      (!decide (b.active = 0)) = true → (!decide (a.active = 0)) = true := by
    refine List.Pairwise.imp_of_mem ?_ hl.pairwise
    intro a b ha hb hab hb1
    have hb' : b.active = 1 := by
      rcases hl.activeBit b hb with h0 | h1
      · simp [h0] at hb1
      · exact h1
    simp [hl.activeFirst a ha b hb (le_of_lt hab) hb']
  have htake : (aborted db).shards = db.shards.take (aborted db).shards.length :=
    filter_eq_take hfirst
  refine
    { shardIds := ?_
      limit := le_trans (by exact_mod_cast (aborted_shards_sublist db).length_le) hl.limit
      stats := fun sh hsh => hl.stats sh ((aborted_shards_sublist db).subset hsh)
      activeBit := fun sh hsh => hl.activeBit sh ((aborted_shards_sublist db).subset hsh)
      activeFirst := fun _ hsh _ _ _ _ => ((mem_abortedShards h).1 hsh).2
      slots := ?_
      ports := ?_ }
  · have hle : (aborted db).shards.length ≤ db.shards.length :=
      (aborted_shards_sublist db).length_le
    rw [htake, List.map_take, hl.shardIds, ← List.map_take, List.take_range, List.length_take,
      Nat.min_eq_left hle]
  · -- the keys of the slots that stay are those of the shards that stay
    have hkeys : db.clearPending.slots.map Slot.key = db.shards.flatMap fun sh =>
        shardKeys sh.id := by
      rw [clearPending_map fun _ => rfl]
      exact hl.keys
    have hslots : (aborted db).slots.map Slot.key =
        (db.clearPending.slots.map Slot.key).filter fun k => !decide (k.1 ∈ inactiveShards db) := by
      rw [List.filter_map]
      rfl
    change (aborted db).slots.map Slot.key = (aborted db).shards.flatMap fun sh => shardKeys sh.id
    rw [hslots, hkeys, List.filter_flatMap]
    have hsplit : ∀ shs : List Shard, (∀ sh ∈ shs, sh ∈ db.shards) →
        (shs.flatMap fun sh => (shardKeys sh.id).filter fun k =>
          !decide (k.1 ∈ inactiveShards db)) =
          (shs.filter fun sh => !decide (sh.active = 0)).flatMap fun sh => shardKeys sh.id := by
      intro shs
      induction shs with
      | nil => intro _; rfl
      | cons sh shs ih =>
        intro hmem
        have hin : sh.id ∈ inactiveShards db ↔ sh.active = 0 := by
          simp only [inactiveShards, List.mem_map, List.mem_filter, decide_eq_true_eq]
          constructor
          · rintro ⟨sh', ⟨hsh', h0⟩, hid⟩
            rw [eq_of_key h.consistent.shardId hsh' (hmem sh (by simp)) hid] at h0
            exact h0
          · exact fun h0 => ⟨sh, ⟨hmem sh (by simp), h0⟩, rfl⟩
        rw [List.flatMap_cons, ih fun x hx => hmem x (by simp [hx])]
        by_cases h0 : sh.active = 0
        · have hnone : ((shardKeys sh.id).filter fun k => !decide (k.1 ∈ inactiveShards db)) =
              [] := by
            refine List.filter_eq_nil_iff.2 fun k hk => ?_
            rw [(mem_shardKeys.1 hk).1]
            simp [hin.2 h0]
          rw [hnone, List.filter_cons_of_neg (by simp [h0])]
          rfl
        · have hall : ((shardKeys sh.id).filter fun k => !decide (k.1 ∈ inactiveShards db)) =
              shardKeys sh.id := by
            refine List.filter_eq_self.2 fun k hk => ?_
            rw [(mem_shardKeys.1 hk).1]
            simpa using fun hm => h0 (hin.1 hm)
          rw [hall, List.filter_cons_of_pos (by simp [h0]), List.flatMap_cons]
    exact hsplit db.shards fun _ hsh => hsh
  · intro s' hs'
    obtain ⟨s, hs, -, rfl⟩ := (mem_aborted h).1 hs'
    exact hl.ports s hs

theorem aborted_pending (h : Inv db) {s : Slot} (hs : s ∈ (aborted db).slots) :
    s.pendingSecret = none := by
  obtain ⟨s₀, -, -, rfl⟩ := (mem_aborted h).1 hs
  rfl

theorem inv_aborted (h : Inv db) : Inv (aborted db) where
  consistent := consistent_aborted h
  layout := layout_aborted h
  linked := by
    refine ⟨fun s' hs' hst => ?_, fun s' hs' hst => ?_, fun d hd => ?_⟩
    · obtain ⟨s, hs, -, rfl⟩ := (mem_aborted h).1 hs'
      exact h.linked.assigned s hs hst
    · obtain ⟨s, hs, -, rfl⟩ := (mem_aborted h).1 hs'
      exact h.linked.unassigned s hs hst
    · obtain ⟨s, hs, hid, hst⟩ := h.linked.device d hd
      refine ⟨s.noPending, (mem_aborted h).2 ⟨s, hs, ?_, rfl⟩, hid, hst⟩
      by_contra hna
      rw [h.inactive s hs hna] at hst
      simp at hst
  secrets := by
    have hsub : ((aborted db).slots.map (·.secret)).Sublist (db.slots.map (·.secret)) := by
      rw [← @clearPending_map db _ (fun s : Slot => s.secret) fun _ => rfl]
      exact (aborted_slots_sublist db).map _
    have hnil : (aborted db).slots.filterMap (·.pendingSecret) = [] :=
      List.filterMap_eq_nil_iff.2 fun s hs => aborted_pending h hs
    unfold allSecrets
    rw [hnil, List.append_nil]
    exact hsub.nodup h.consistent.slotSecret
  tokens := by
    intro v hv
    rcases List.mem_append.1 hv with hv | hv
    · obtain ⟨s', hs', rfl⟩ := List.mem_map.1 hv
      obtain ⟨s, hs, -, rfl⟩ := (mem_aborted h).1 hs'
      exact h.tokens _ (List.mem_append_left _ (List.mem_map.2 ⟨s, hs, rfl⟩))
    · obtain ⟨s, hs, hp⟩ := List.mem_filterMap.1 hv
      rw [aborted_pending h hs] at hp
      simp at hp
  pending := fun s hs hp => absurd (aborted_pending h hs) hp
  inactive := by
    intro s' hs' hna
    obtain ⟨s, hs, hact, rfl⟩ := (mem_aborted h).1 hs'
    exact absurd ((onActive_aborted h rfl).2 hact) hna
  enabledBit := h.enabledBit

theorem abortStaged_wp (h : Inv db) {Q : Unit → DB → Prop} (hQ : Q () (aborted db)) :
    abortStaged.wp D Q db := by
  refine wp.bind (wp.execute (consistent_clearPending h.consistent) ?_)
  refine wp.bind (wp.execute (consistent_dropInactiveSlots h) ?_)
  exact wp.execute (consistent_aborted h) hQ

end WebProxyPanel
