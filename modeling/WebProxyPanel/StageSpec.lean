import WebProxyPanel.PoolSpec
/-!
# Staging (`stage_dirty`, `create_shards`, the first transaction of `maintain`)

Every dirty slot gets a pending secret; new shards come after the old ones, inactive, with 16 free
slots each. Secrets come from the random source and are in neither secret column yet.
-/

namespace WebProxyPanel
open Table Sql

variable {db : DB} {D : String → Prop}

/-! ## Pending secrets -/

theorem secretUsed_eq_false {v : String} : secretUsed v db = false ↔ v ∉ allSecrets db := by
  simp only [secretUsed, allSecrets, List.any_eq_false, List.mem_append, List.mem_map,
    List.mem_filterMap, Bool.or_eq_true, decide_eq_true_eq, not_or]
  constructor
  · intro h
    exact ⟨fun ⟨s, hs, he⟩ => (h s hs).1 he, fun ⟨s, hs, he⟩ => (h s hs).2 he⟩
  · rintro ⟨h1, h2⟩ s hs
    exact ⟨fun he => h1 ⟨s, hs, he⟩, fun he => h2 ⟨s, hs, he⟩⟩

/-- `UPDATE slots SET pending_secret = ? WHERE id = ?` -/
def setPending (id : Int) (v : String) (db : DB) : DB :=
  DB.updateSlot id (fun s => { s with pendingSecret := some v }) db

theorem mem_setPending {id : Int} {v : String} {s' : Slot} : s' ∈ (setPending id v db).slots ↔
    ∃ s ∈ db.slots, s' = if s.id = id then { s with pendingSecret := some v } else s := by
  simp [setPending, DB.updateSlot, mem_update, eq_comm]

theorem setPending_map {κ : Type} {g : Slot → κ} (hg : ∀ s : Slot, g s.noPending = g s) (id : Int)
    (v : String) : (setPending id v db).slots.map g = db.slots.map g := by
  refine map_update g ?_ _
  intro s _
  rw [← hg s, ← hg { s with pendingSecret := some v }]
  rfl

theorem setPending_secrets (h : Inv db) {s : Slot} (hs : s ∈ db.slots)
    (hnone : s.pendingSecret = none) (v : String) :
    (allSecrets (setPending s.id v db)).Perm (v :: allSecrets db) := by
  unfold allSecrets
  rw [setPending_map fun _ => rfl]
  have hp := filterMap_update_perm (g := fun s : Slot => s.pendingSecret)
    (f := fun s => { s with pendingSecret := some v }) h.consistent.slotId hs hnone rfl
  exact (hp.append_left _).trans List.perm_middle

/-- A dirty slot without a pending secret may get one that is in neither column. -/
theorem inv_setPending (h : Inv db) {s : Slot} (hs : s ∈ db.slots) (hst : s.status = .dirty)
    (hnone : s.pendingSecret = none) {v : String} (hv : v ∉ allSecrets db)
    (hhex : isTokenHex v = true) : Inv (setPending s.id v db) := by
  have hperm := setPending_secrets h hs hnone v
  have hnodup : (allSecrets (setPending s.id v db)).Nodup :=
    hperm.nodup_iff.2 (List.nodup_cons.2 ⟨hv, h.secrets⟩)
  have hpend : ((setPending s.id v db).slots.filterMap (·.pendingSecret)).Nodup :=
    (List.nodup_append.1 hnodup).2.1
  have hrow : ∀ x : Slot, ∀ x' : Slot, x' =
      (if x.id = s.id then { x with pendingSecret := some v } else x) →
      x'.noPending = x.noPending := by
    rintro x x' rfl
    split <;> rfl
  have hact : ∀ x : Slot, OnActive (setPending s.id v db) x ↔ OnActive db x := fun _ => Iff.rfl
  refine
    { consistent :=
        { h.consistent with
          slotId := by rw [setPending_map fun _ => rfl]; exact h.consistent.slotId
          slotPort := by rw [setPending_map fun _ => rfl]; exact h.consistent.slotPort
          slotSecret := by rw [setPending_map fun _ => rfl]; exact h.consistent.slotSecret
          slotPending := hpend
          slotIdx := by rw [setPending_map fun _ => rfl]; exact h.consistent.slotIdx
          slotShard := ?_
          deviceSlotRef := by
            intro d hd
            rw [setPending_map fun _ => rfl]
            exact h.consistent.deviceSlotRef d hd }
      layout :=
        { shardIds := h.layout.shardIds
          limit := h.layout.limit
          stats := h.layout.stats
          activeBit := h.layout.activeBit
          activeFirst := h.layout.activeFirst
          slots := by
            rw [setPending_map fun _ => rfl]
            exact h.layout.slots
          ports := ?_ }
      linked := ⟨?_, ?_, ?_⟩
      secrets := hnodup
      tokens := ?_
      pending := ?_
      inactive := ?_
      enabledBit := h.enabledBit }
  · intro x' hx'
    obtain ⟨x, hx, he⟩ := mem_setPending.1 hx'
    rw [(noPending_eq_iff.1 (hrow x x' he)).2.1]
    exact h.consistent.slotShard x hx
  · intro x' hx'
    obtain ⟨x, hx, he⟩ := mem_setPending.1 hx'
    have hp : x'.port = x.port := (noPending_eq_iff.1 (hrow x x' he)).2.2.2.1
    have hk : x'.shardId = x.shardId := (noPending_eq_iff.1 (hrow x x' he)).2.1
    have hi : x'.idx = x.idx := (noPending_eq_iff.1 (hrow x x' he)).2.2.1
    rw [hp, hk, hi]
    exact h.layout.ports x hx
  · intro x' hx' hxst
    obtain ⟨x, hx, he⟩ := mem_setPending.1 hx'
    have hid : x'.id = x.id := (noPending_eq_iff.1 (hrow x x' he)).1
    have hd : x'.deviceId = x.deviceId := (noPending_eq_iff.1 (hrow x x' he)).2.2.2.2.2.2
    have hs' : x'.status = x.status := (noPending_eq_iff.1 (hrow x x' he)).2.2.2.2.2.1
    rw [hid, hd]
    exact h.linked.assigned x hx (hs' ▸ hxst)
  · intro x' hx' hxst
    obtain ⟨x, hx, he⟩ := mem_setPending.1 hx'
    have hd : x'.deviceId = x.deviceId := (noPending_eq_iff.1 (hrow x x' he)).2.2.2.2.2.2
    have hs' : x'.status = x.status := (noPending_eq_iff.1 (hrow x x' he)).2.2.2.2.2.1
    rw [hd]
    exact h.linked.unassigned x hx (hs' ▸ hxst)
  · intro d hd
    obtain ⟨x, hx, hid, hxst⟩ := h.linked.device d hd
    refine ⟨_, mem_setPending.2 ⟨x, hx, rfl⟩, ?_, ?_⟩ <;> split <;> assumption
  · intro w hw
    rcases List.mem_cons.1 (hperm.subset hw) with rfl | hw
    · exact hhex
    · exact h.tokens w hw
  · intro x' hx' hp
    obtain ⟨x, hx, he⟩ := mem_setPending.1 hx'
    have hs' : x'.status = x.status := (noPending_eq_iff.1 (hrow x x' he)).2.2.2.2.2.1
    rw [hs']
    by_cases hxs : x.id = s.id
    · rw [eq_of_key h.consistent.slotId hx hs hxs]
      exact hst
    · rw [if_neg hxs] at he
      rw [he] at hp
      exact h.pending x hx hp
  · intro x' hx' hna
    obtain ⟨x, hx, he⟩ := mem_setPending.1 hx'
    have hs' : x'.status = x.status := (noPending_eq_iff.1 (hrow x x' he)).2.2.2.2.2.1
    have hk : x'.shardId = x.shardId := (noPending_eq_iff.1 (hrow x x' he)).2.1
    rw [hs']
    refine h.inactive x hx fun hxa => hna ((hact x').2 ?_)
    exact (onActive_congr rfl hk).2 hxa

/-- What `stage_dirty` leaves when nothing is staged before it. -/
structure StagedDirty (D : String → Prop) (db : DB) (restart : List Int) (db' : DB) : Prop where
  inv : Inv db'
  rest : { db' with slots := db.slots } = db
  slots : List.Forall₂ (fun s s' => if s.status = .dirty then
    ∃ v, D v ∧ s' = { s with pendingSecret := some v } else s' = s) db.slots db'.slots
  restart : ∀ k, k ∈ restart ↔ ∃ s ∈ db.slots, s.status = .dirty ∧ s.shardId = k

theorem stageDirty_wp (h : Inv db) (hD : ∀ v, D v → isTokenHex v = true)
    (hnone : ∀ s ∈ db.slots, s.pendingSecret = none) {Q : List Int → DB → Prop}
    (hQ : ∀ restart db', StagedDirty D db restart db' → Q restart db') : stageDirty.wp D Q db := by
  refine wp.bind (wp.query ?_)
  have hrows : (db.slots.filter fun s => decide (s.status = .dirty)).Nodup :=
    (nodup_of_map h.consistent.slotId).filter _
  -- the rows done so far have their pending secret, the others are as before
  refine (wp.foldlM (I := fun pre acc db' => Inv db' ∧ { db' with slots := db.slots } = db ∧
    List.Forall₂ (fun s s' => if s ∈ pre then
      ∃ v, D v ∧ s' = { s with pendingSecret := some v } else s' = s)
      db.slots db'.slots ∧ ∀ k, k ∈ acc ↔ ∃ s ∈ pre, s.shardId = k) ?_ ?_).mono ?_
  · rintro pre x post hsplit acc db' ⟨hi, hrest, hslots, hacc⟩
    rw [hsplit] at hrows
    have hxpre : x ∉ pre := fun hm => by
      have := (List.nodup_append.1 hrows).2.2 x hm x (by simp)
      exact this rfl
    have hxmem : x ∈ db.slots ∧ x.status = .dirty := by
      have : x ∈ db.slots.filter fun s => decide (s.status = .dirty) := by rw [hsplit]; simp
      simpa using this
    have hxin : x ∈ db'.slots := by
      obtain ⟨i, hi', hxi⟩ := List.mem_iff_getElem.1 hxmem.1
      have hl := hslots.length_eq
      have := hslots.get hi' (by omega)
      simp only [List.get_eq_getElem, hxi, if_neg hxpre] at this
      rw [← this]
      exact List.getElem_mem _
    refine wp.bind ?_
    unfold stageSecret
    rw [if_pos (hnone x hxmem.1)]
    refine wp.bind (wp.newSecret fun v hDv hv => ?_)
    have hi' := inv_setPending hi hxin hxmem.2 (hnone x hxmem.1)
        (secretUsed_eq_false.1 hv) (hD v hDv)
    refine wp.execute hi'.consistent (wp.pure ⟨hi', hrest, ?_, fun k => ?_⟩)
    · -- only the row of `x` is touched
      refine List.forall₂_iff_get.2
        ⟨by simpa [DB.updateSlot] using hslots.length_eq, fun i h1 h2 => ?_⟩
      have hl := hslots.length_eq
      have hb := hslots.get h1 (by omega)
      simp only [List.get_eq_getElem] at hb ⊢
      simp only [DB.updateSlot, update, List.getElem_map, decide_eq_true_eq]
      by_cases hx : db.slots[i] = x
      · rw [hx, if_neg hxpre] at hb
        rw [hb, if_pos rfl, if_pos (by rw [hx]; simp)]
        exact ⟨v, hDv, by rw [hx]⟩
      · have hne : db'.slots[i].id ≠ x.id := by
          intro he
          refine hx (eq_of_key h.consistent.slotId (List.getElem_mem h1) hxmem.1 ?_)
          rw [← he]
          split at hb
          · obtain ⟨w, -, hw⟩ := hb
            rw [hw]
          · rw [hb]
        rw [if_neg hne]
        have hiff : db.slots[i] ∈ pre ++ [x] ↔ db.slots[i] ∈ pre := by simp [hx]
        simp only [hiff]
        exact hb
    · rw [List.mem_insert_iff, hacc k]
      constructor
      · rintro (rfl | ⟨s, hs, rfl⟩)
        · exact ⟨x, by simp, rfl⟩
        · exact ⟨s, by simp [hs], rfl⟩
      · rintro ⟨s, hs, rfl⟩
        rcases List.mem_append.1 hs with hs | hs
        · exact .inr ⟨s, hs, rfl⟩
        · rw [List.mem_singleton.1 hs]
          exact .inl rfl
  · refine ⟨h, rfl, List.forall₂_same.2 fun s _ => by simp, by simp⟩
  · rintro restart db' ⟨hi, hrest, hslots, hacc⟩
    refine hQ restart db' ⟨hi, hrest, ?_, fun k => ?_⟩
    · refine List.forall₂_iff_get.2 ⟨hslots.length_eq, fun i h1 h2 => ?_⟩
      have hm : db.slots.get ⟨i, h1⟩ ∈ db.slots := List.getElem_mem h1
      have := hslots.get h1 h2
      simpa only [List.mem_filter, hm, true_and, decide_eq_true_eq] using this
    · rw [hacc k]
      simp [and_assoc]

/-! ## New shards -/

/-- `db'` is `db` with some new inactive shards, and slots with these keys. -/
structure Grown (D : String → Prop) (db : DB) (ts : Int) (new : List Int) (keys : List (Int × Int))
    (db' : DB) :
    Prop where
  consistent : db'.Consistent
  rest : { db' with shards := db.shards, slots := db.slots } = db
  shards : db'.shards = db.shards ++ new.map fun k => ⟨k, statsPort k, ts, 0⟩
  slots : ∃ news, db'.slots = db.slots ++ news ∧ news.map Slot.key = keys ∧ ∀ s ∈ news,
    s.port = slotPort s.shardId s.idx ∧ s.status = .free ∧ s.deviceId = none ∧
    s.pendingSecret = none ∧ D s.secret
  secrets : (allSecrets db').Nodup

theorem Grown.refl (h : Inv db) (ts : Int) : Grown D db ts [] [] db where
  consistent := h.consistent
  rest := rfl
  shards := by simp
  slots := ⟨[], by simp, rfl, by simp⟩
  secrets := h.secrets

section Grown
variable {db' : DB} {ts : Int} {new : List Int} {keys : List (Int × Int)}

theorem Grown.tables (h : Grown D db ts new keys db') :
    db'.users = db.users ∧ db'.devices = db.devices := by
  have hu := congrArg DB.users h.rest
  have hd := congrArg DB.devices h.rest
  exact ⟨hu, hd⟩

theorem Grown.stats (hi : Inv db) (h : Grown D db ts new keys db') :
    ∀ sh ∈ db'.shards, sh.statsPort = statsPort sh.id := by
  intro sh hsh
  rw [h.shards] at hsh
  rcases List.mem_append.1 hsh with hsh | hsh
  · exact hi.layout.stats sh hsh
  · obtain ⟨k, -, rfl⟩ := List.mem_map.1 hsh
    rfl

theorem Grown.addShard (hi : Inv db) (h : Grown D db ts new keys db') {k : Int}
    (hk : k ∉ db'.shards.map (·.id)) : Grown D db ts (new ++ [k]) keys (DB.addShard k ts db') := by
  have hstats : statsPort k ∉ db'.shards.map (·.statsPort) := by
    intro hm
    obtain ⟨sh, hsh, he⟩ := List.mem_map.1 hm
    refine hk (List.mem_map.2 ⟨sh, hsh, ?_⟩)
    have := h.stats hi sh hsh
    simp only [statsPort] at he this
    omega
  refine
    { consistent :=
        { h.consistent with
          shardId := ?_
          shardStats := ?_
          slotShard := ?_ }
      rest := h.rest
      shards := ?_
      slots := h.slots
      secrets := h.secrets }
  · simp only [DB.addShard, List.map_append, List.map_cons, List.map_nil]
    exact List.nodup_append.2 ⟨h.consistent.shardId, by simp, fun a ha b hb => by
      rw [List.mem_singleton.1 hb]
      rintro rfl
      exact hk ha⟩
  · simp only [DB.addShard, List.map_append, List.map_cons, List.map_nil]
    exact List.nodup_append.2 ⟨h.consistent.shardStats, by simp, fun a ha b hb => by
      rw [List.mem_singleton.1 hb]
      rintro rfl
      exact hstats ha⟩
  · intro s hs
    simp only [DB.addShard, List.map_append]
    exact List.mem_append_left _ (h.consistent.slotShard s hs)
  · simp only [DB.addShard, h.shards, List.append_assoc, List.map_append,
      List.map_cons, List.map_nil]

/-- A slot's port tells its key. -/
theorem slotPort_inj {a b i j : Int} (hi : 0 ≤ i ∧ i < shardSize) (hj : 0 ≤ j ∧ j < shardSize)
    (h : slotPort a i = slotPort b j) : a = b ∧ i = j := by
  simp only [slotPort, slotPortBase, shardSize] at *
  omega

theorem Grown.key_port (hi : Inv db) (h : Grown D db ts new keys db')
    (hkeys : ∀ x ∈ keys, 0 ≤ x.2 ∧ x.2 < shardSize) :
    ∀ s ∈ db'.slots, s.port = slotPort s.shardId s.idx ∧ 0 ≤ s.idx ∧ s.idx < shardSize := by
  intro s hs
  obtain ⟨news, hslots, hmap, hnews⟩ := h.slots
  rw [hslots] at hs
  rcases List.mem_append.1 hs with hs | hs
  · exact ⟨hi.layout.ports s hs, hi.idx_bounds hs⟩
  · refine ⟨(hnews s hs).1, hkeys s.key ?_⟩
    rw [← hmap]
    exact List.mem_map_of_mem hs

theorem Grown.addSlot (hi : Inv db) (h : Grown D db ts new keys db') {k idx : Int} {v : String}
    (hkeys : ∀ x ∈ keys, 0 ≤ x.2 ∧ x.2 < shardSize) (hk : k ∈ db'.shards.map (·.id))
    (hidx : 0 ≤ idx ∧ idx < shardSize) (hnew : (k, idx) ∉ db'.slots.map Slot.key)
    (hv : v ∉ allSecrets db') (hDv : D v) :
    Grown D db ts new (keys ++ [(k, idx)]) (DB.addSlot k idx v db') := by
  have hport : slotPort k idx ∉ db'.slots.map (·.port) := by
    intro hm
    obtain ⟨s, hs, he⟩ := List.mem_map.1 hm
    obtain ⟨hp, hb⟩ := h.key_port hi hkeys s hs
    rw [hp] at he
    obtain ⟨h1, h2⟩ := slotPort_inj hb hidx he
    exact hnew (List.mem_map.2 ⟨s, hs, by rw [Slot.key, h1, h2]⟩)
  have hsec : v ∉ db'.slots.map (·.secret) := fun hm => hv (List.mem_append_left _ hm)
  obtain ⟨news, hslots, hmap, hnews⟩ := h.slots
  refine
    { consistent :=
        { h.consistent with
          slotId := ?_
          slotPort := ?_
          slotSecret := ?_
          slotPending := ?_
          slotIdx := ?_
          slotShard := ?_
          deviceSlotRef := ?_ }
      rest := h.rest
      shards := h.shards
      slots := ⟨news ++ [⟨nextRowid (db'.slots.map (·.id)), k, idx, slotPort k idx, v, none, .free,
        none⟩], ?_, ?_, ?_⟩
      secrets := ?_ }
  · simp only [DB.addSlot, List.map_append, List.map_cons, List.map_nil]
    exact nodup_append_nextRowid h.consistent.slotId
  · simp only [DB.addSlot, List.map_append, List.map_cons, List.map_nil]
    exact List.nodup_append.2 ⟨h.consistent.slotPort, by simp, fun a ha b hb => by
      rw [List.mem_singleton.1 hb]
      rintro rfl
      exact hport ha⟩
  · simp only [DB.addSlot, List.map_append, List.map_cons, List.map_nil]
    exact List.nodup_append.2 ⟨h.consistent.slotSecret, by simp, fun a ha b hb => by
      rw [List.mem_singleton.1 hb]
      rintro rfl
      exact hsec ha⟩
  · simpa [DB.addSlot] using h.consistent.slotPending
  · simp only [DB.addSlot, List.map_append, List.map_cons, List.map_nil]
    exact List.nodup_append.2 ⟨h.consistent.slotIdx, by simp, fun a ha b hb => by
      rw [List.mem_singleton.1 hb]
      rintro rfl
      exact hnew ha⟩
  · intro s hs
    rcases List.mem_append.1 hs with hs | hs
    · exact h.consistent.slotShard s hs
    · rw [List.mem_singleton.1 hs]
      exact hk
  · intro d hd
    simp only [DB.addSlot, List.map_append]
    exact List.mem_append_left _ (h.consistent.deviceSlotRef d hd)
  · simp only [DB.addSlot, hslots, List.append_assoc]
  · simp only [List.map_append, hmap, List.map_cons, List.map_nil, Slot.key]
  · intro s hs
    rcases List.mem_append.1 hs with hs | hs
    · exact hnews s hs
    · rw [List.mem_singleton.1 hs]
      exact ⟨rfl, rfl, rfl, rfl, hDv⟩
  · have hperm : (allSecrets (DB.addSlot k idx v db')).Perm (v :: allSecrets db') := by
      simp only [allSecrets, DB.addSlot, List.map_append, List.map_cons, List.map_nil,
        List.filterMap_append,
        List.filterMap_cons, List.filterMap_nil, List.append_nil, List.append_assoc,
        List.singleton_append]
      exact List.perm_middle
    exact hperm.nodup_iff.2 (List.nodup_cons.2 ⟨hv, h.secrets⟩)

end Grown

theorem firstNewShard_eq (h : Layout db) : firstNewShard db = db.shards.length := by
  unfold firstNewShard
  cases hm : (db.shards.map (·.id)).max? with
  | none =>
    have hnil := List.max?_eq_none_iff.1 hm
    have : db.shards = [] := by simpa using hnil
    simp [this]
  | some m =>
    obtain ⟨h1, h2⟩ := List.max?_eq_some_iff.1 hm
    have hb := h.mem_ids.1 h1
    have hlast := h2 ((db.shards.length : Int) - 1) (h.mem_ids.2 (by omega))
    simp only
    omega

/-- The ids that `create_shards` gives out. -/
def newIds (first : Int) (count : Nat) : List Int := (List.range count).map fun i : Nat => first + i

theorem mem_newIds {first k : Int} {count : Nat} :
    k ∈ newIds first count ↔ first ≤ k ∧ k < first + count := by
  simp only [newIds, List.mem_map, List.mem_range]
  constructor
  · rintro ⟨i, hi, rfl⟩
    omega
  · rintro ⟨h0, h1⟩
    exact ⟨(k - first).toNat, by omega, by omega⟩

theorem newIds_nodup (first : Int) (count : Nat) : (newIds first count).Nodup :=
  List.Nodup.map (fun a b hab => by omega) List.nodup_range

/-- A complete growth keeps the invariant. -/
theorem inv_grown (h : Inv db) (hD : ∀ v, D v → isTokenHex v = true) {ts : Int} {count : Nat}
    {db' : DB} (hlim : (db.shards.length : Int) + count ≤ maxShards)
    (hg : Grown D db ts (newIds db.shards.length count)
      ((newIds db.shards.length count).flatMap shardKeys) db') :
    Inv db' := by
  obtain ⟨husers, hdevices⟩ := hg.tables
  obtain ⟨news, hslots, hmap, hnews⟩ := hg.slots
  have hold : ∀ s ∈ db.slots, (OnActive db' s ↔ OnActive db s) := by
    intro s _
    simp only [OnActive, hg.shards]
    constructor
    · rintro ⟨sh, hsh, hid, ha⟩
      rcases List.mem_append.1 hsh with hsh | hsh
      · exact ⟨sh, hsh, hid, ha⟩
      · obtain ⟨k, -, rfl⟩ := List.mem_map.1 hsh
        simp at ha
    · rintro ⟨sh, hsh, hid, ha⟩
      exact ⟨sh, List.mem_append_left _ hsh, hid, ha⟩
  have hmem : ∀ sh ∈ db'.shards, sh ∈ db.shards ∨
      (sh.active = 0 ∧ (db.shards.length : Int) ≤ sh.id) := by
    intro sh hsh
    rw [hg.shards] at hsh
    rcases List.mem_append.1 hsh with hsh | hsh
    · exact .inl hsh
    · obtain ⟨k, hk, rfl⟩ := List.mem_map.1 hsh
      exact .inr ⟨rfl, (mem_newIds.1 hk).1⟩
  refine
    { consistent := hg.consistent
      layout :=
        { shardIds := ?_
          limit := ?_
          stats := hg.stats h
          activeBit := ?_
          activeFirst := ?_
          slots := ?_
          ports := ?_ }
      linked := ⟨?_, ?_, ?_⟩
      secrets := hg.secrets
      tokens := ?_
      pending := ?_
      inactive := ?_
      enabledBit := by rw [husers]; exact h.enabledBit }
  · rw [hg.shards, List.map_append, h.layout.shardIds, List.length_append, List.length_map, newIds,
      List.length_map, List.length_range, List.range_add, List.map_append, List.map_map,
        List.map_map, List.map_map]
    congr 1
  · rw [hg.shards, List.length_append, List.length_map, newIds, List.length_map, List.length_range]
    push_cast
    exact hlim
  · intro sh hsh
    rcases hmem sh hsh with hm | ⟨h0, -⟩
    · exact h.layout.activeBit sh hm
    · exact .inl h0
  · intro sh hsh sh' hsh' hle ha
    rcases hmem sh' hsh' with hm' | ⟨h0, -⟩
    · rcases hmem sh hsh with hm | ⟨-, hge⟩
      · exact h.layout.activeFirst sh hm sh' hm' hle ha
      · have := (h.layout.mem_ids.1 (List.mem_map_of_mem hm')).2
        omega
    · rw [h0] at ha
      simp at ha
  · change db'.slots.map Slot.key = db'.shards.flatMap fun sh => shardKeys sh.id
    rw [hslots, List.map_append, hmap, h.layout.keys, hg.shards, List.flatMap_append,
      List.flatMap_map]
  · intro s hs
    rw [hslots] at hs
    rcases List.mem_append.1 hs with hs | hs
    · exact h.layout.ports s hs
    · exact (hnews s hs).1
  · intro s hs hst
    rw [hslots] at hs
    rw [hdevices]
    rcases List.mem_append.1 hs with hs | hs
    · exact h.linked.assigned s hs hst
    · rw [(hnews s hs).2.1] at hst
      simp at hst
  · intro s hs hst
    rw [hslots] at hs
    rcases List.mem_append.1 hs with hs | hs
    · exact h.linked.unassigned s hs hst
    · exact (hnews s hs).2.2.1
  · intro d hd
    rw [hdevices] at hd
    obtain ⟨s, hs, h1, h2⟩ := h.linked.device d hd
    exact ⟨s, by rw [hslots]; exact List.mem_append_left _ hs, h1, h2⟩
  · intro v hv
    unfold allSecrets at hv
    rw [hslots, List.map_append, List.filterMap_append] at hv
    simp only [List.mem_append] at hv
    rcases hv with (hv | hv) | (hv | hv)
    · exact h.tokens v (List.mem_append_left _ hv)
    · obtain ⟨s, hs, rfl⟩ := List.mem_map.1 hv
      exact hD _ (hnews s hs).2.2.2.2
    · exact h.tokens v (List.mem_append_right _ hv)
    · obtain ⟨s, hs, hp⟩ := List.mem_filterMap.1 hv
      rw [(hnews s hs).2.2.2.1] at hp
      simp at hp
  · intro s hs hp
    rw [hslots] at hs
    rcases List.mem_append.1 hs with hs | hs
    · exact h.pending s hs hp
    · exact absurd (hnews s hs).2.2.2.1 hp
  · intro s hs hna
    rw [hslots] at hs
    rcases List.mem_append.1 hs with hs | hs
    · exact h.inactive s hs fun ha => hna ((hold s hs).2 ha)
    · exact (hnews s hs).2.1

/-- One shard with its 16 slots. -/
theorem insertShard_wp (hi : Inv db) {ts : Int} {pre : List Int} {k : Int} {db₁ : DB}
    (h : Grown D db ts pre (pre.flatMap shardKeys) db₁) (hfresh : k ∉ db₁.shards.map (·.id)) :
    (insertShard ts k).wp D
      (fun _ db' => Grown D db ts (pre ++ [k]) ((pre ++ [k]).flatMap shardKeys) db') db₁ := by
  have h₁ := h.addShard hi hfresh
  -- a slot on a shard that was not there has a new key
  have hnoslot : ∀ s ∈ db₁.slots, s.shardId ≠ k :=
    fun s hs he => hfresh (he ▸ h.consistent.slotShard s hs)
  refine wp.bind (wp.execute h₁.consistent ?_)
  refine (wp.forM (I := fun done db' => Grown D db ts (pre ++ [k])
    (pre.flatMap shardKeys ++ done.map fun i : Nat => (k, (i : Int))) db' ∧
      ∃ news, db'.slots = db₁.slots ++ news ∧ news.map Slot.key = done.map fun i : Nat =>
      (k, (i : Int)))
    ?_ ?_).mono ?_
  · rintro done i rest hsplit db₂ ⟨h₂, news, hslots, hmap⟩
    have hnd : (done ++ i :: rest).Nodup := hsplit ▸ List.nodup_range
    have hi16 : i < shardSize := by
      have : i ∈ List.range shardSize := by rw [hsplit]; simp
      exact List.mem_range.1 this
    have hkeys : ∀ x ∈ pre.flatMap shardKeys ++ done.map fun i : Nat => (k, (i : Int)),
        0 ≤ x.2 ∧ x.2 < shardSize := by
      intro x hx
      rcases List.mem_append.1 hx with hx | hx
      · obtain ⟨k', -, hx⟩ := List.mem_flatMap.1 hx
        exact (mem_shardKeys.1 hx).2
      · obtain ⟨j, hj, rfl⟩ := List.mem_map.1 hx
        have : j ∈ List.range shardSize := by rw [hsplit]; simp [hj]
        have := List.mem_range.1 this
        exact ⟨by simp, by simpa using this⟩
    refine wp.bind (wp.newSecret fun v hDv hv => ?_)
    have hk₂ : k ∈ db₂.shards.map (·.id) := by
      rw [h₂.shards]
      simp
    have hnew : (k, (i : Int)) ∉ db₂.slots.map Slot.key := by
      rw [hslots, List.map_append, hmap]
      intro hm
      rcases List.mem_append.1 hm with hm | hm
      · obtain ⟨s, hs, he⟩ := List.mem_map.1 hm
        exact hnoslot s hs (congrArg Prod.fst he)
      · obtain ⟨j, hj, he⟩ := List.mem_map.1 hm
        have hji' : (j : Int) = i := congrArg Prod.snd he
        have hji : j = i := by omega
        rw [hji] at hj
        exact (List.nodup_append.1 hnd).2.2 i hj i (by simp) rfl
    have h₃ := h₂.addSlot hi hkeys hk₂ ⟨by omega, by omega⟩ hnew (secretUsed_eq_false.1 hv) hDv
    refine wp.execute h₃.consistent ⟨by simpa using h₃, ?_⟩
    refine ⟨news ++ [⟨nextRowid (db₂.slots.map (·.id)), k, i, slotPort k i, v, none, .free, none⟩],
      ?_, ?_⟩
    · simp only [DB.addSlot, hslots, List.append_assoc]
    · simp only [List.map_append, hmap, List.map_cons, List.map_nil, Slot.key]
  · exact ⟨by simpa using h₁, [], by simp [DB.addShard], rfl⟩
  · rintro _ db' ⟨hg, -⟩
    rw [List.flatMap_append, List.flatMap_cons, List.flatMap_nil, List.append_nil]
    exact hg

/-- The shards that `create_shards` adds. -/
structure CreatedShards (D : String → Prop) (db : DB) (new : List Int) (db' : DB) : Prop where
  inv : Inv db'
  grown : ∃ ts, Grown D db ts new (new.flatMap shardKeys) db'

theorem createShards_wp (h : Inv db) (hD : ∀ v, D v → isTokenHex v = true) {count : Int}
    {Q : List Int → DB → Prop}
    (hQ : ∀ db', CreatedShards D db (newIds db.shards.length count.toNat) db' →
      Q (newIds db.shards.length count.toNat) db') :
    (createShards count).wp D Q db := by
  unfold createShards
  split
  · rename_i hc
    have h0 : newIds (db.shards.length : Int) count.toNat = [] := by
      rw [Int.toNat_of_nonpos hc]
      rfl
    rw [h0] at hQ
    exact wp.pure (hQ db ⟨h, 0, .refl h 0⟩)
  · rename_i hc
    refine wp.bind (wp.query ?_)
    rw [firstNewShard_eq h.layout]
    split
    · exact wp.raise (by simp)
    · rename_i hlim
      refine wp.bind (wp.now fun ts => wp.bind ?_)
      refine (wp.forM (I := fun pre db' => Grown D db ts pre (pre.flatMap shardKeys) db') ?_
        (Grown.refl h ts)).mono ?_
      · intro pre k post hsplit db₁ hg
        refine insertShard_wp h hg fun hm => ?_
        have hnd : (pre ++ k :: post).Nodup := hsplit ▸ newIds_nodup _ _
        have hk : k ∈ newIds (db.shards.length : Int) count.toNat := by
          change k ∈ (List.range count.toNat).map fun i : Nat => (db.shards.length : Int) + i
          rw [hsplit]
          simp
        rw [hg.shards, List.map_append] at hm
        rcases List.mem_append.1 hm with hm | hm
        · have h1 := (h.layout.mem_ids.1 hm).2
          have h2 := (mem_newIds.1 hk).1
          omega
        · obtain ⟨sh, hsh, hid⟩ := List.mem_map.1 hm
          obtain ⟨k', hk', rfl⟩ := List.mem_map.1 hsh
          change k' = k at hid
          rw [hid] at hk'
          exact (List.nodup_append.1 hnd).2.2 k hk' k (by simp) rfl
      · intro _ db' hg
        exact wp.pure (hQ db' ⟨inv_grown h hD (by omega) hg, ts, hg⟩)

end WebProxyPanel
