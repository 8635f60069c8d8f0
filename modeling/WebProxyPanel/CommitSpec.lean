import WebProxyPanel.StageSpec
/-!
# Committing a staged pool (`commit_staged`), and what the three pool transactions have in common

`StageStep` covers the first transaction of `maintain` and the abort of a failed `apply`: on active
shards only pending secrets change. `committed` is the database after a successful `apply`.
`SecretStep` says where the secrets of assigned and free slots, and pending secrets, may come from
in one transaction.
-/

namespace WebProxyPanel
open Table Sql

variable {db db' : DB} {D : String → Prop}

/-! ## Stage and abort -/

structure StageStep (D : String → Prop) (db db' : DB) : Prop where
  inv : Inv db'
  users : db'.users = db.users
  devices : db'.devices = db.devices
  kept : ∀ s ∈ db.slots, OnActive db s → ∃ s' ∈ db'.slots, OnActive db' s' ∧
    s'.noPending = s.noPending
  origin : ∀ s' ∈ db'.slots,
    (OnActive db' s' ∧ ∃ s ∈ db.slots, OnActive db s ∧ s'.noPending = s.noPending) ∨
      (¬ OnActive db' s' ∧ s'.status = .free ∧ D s'.secret)
  pending : ∀ s' ∈ db'.slots, ∀ v, s'.pendingSecret = some v → D v

/-- The first transaction of `maintain`, with the shards it returns. -/
structure Staged (D : String → Prop) (db : DB) (restart new : List Int) (db' : DB) : Prop
    extends StageStep D db db' where
  dirty : ∀ s' ∈ db'.slots, s'.status = .dirty → s'.pendingSecret ≠ none
  restart : ∀ k, k ∈ restart ↔ ∃ s' ∈ db'.slots, s'.status = .dirty ∧ s'.shardId = k
  inactive : ∀ sh ∈ db'.shards, sh.active ≠ 1 ↔ sh.id ∈ new
  newIds : ∀ k ∈ new, k ∈ db'.shards.map (·.id)

theorem stageStep_aborted (h : Inv db) : StageStep (fun _ => False) db (aborted db) where
  inv := inv_aborted h
  users := rfl
  devices := rfl
  kept := fun s hs ha =>
    ⟨s.noPending, (mem_aborted h).2 ⟨s, hs, ha, rfl⟩, (onActive_aborted h rfl).2 ha, rfl⟩
  origin := by
    intro s' hs'
    obtain ⟨s, hs, ha, rfl⟩ := (mem_aborted h).1 hs'
    exact .inl ⟨(onActive_aborted h rfl).2 ha, s, hs, ha, rfl⟩
  pending := by
    intro s' hs' v hv
    rw [aborted_pending h hs'] at hv
    simp at hv

/-- After an abort every shard is active. -/
theorem aborted_onActive (h : Inv db) {s : Slot} (hs : s ∈ (aborted db).slots) :
    OnActive (aborted db) s := by
  obtain ⟨s₀, hs₀, ha, rfl⟩ := (mem_aborted h).1 hs
  exact (onActive_aborted h rfl).2 ha

/-- Abort, stage, grow: the three parts of the first transaction put together. -/
theorem staged_of_parts (h : Inv db) {restart : List Int} {db₁ : DB}
    (h₁ : StagedDirty D (aborted db) restart db₁) {new : List Int}
    (hnew : new = newIds db₁.shards.length new.length) (h₂ : CreatedShards D db₁ new db') :
    Staged D db restart new db' := by
  obtain ⟨ts, hg⟩ := h₂.grown
  obtain ⟨hu, hd⟩ := hg.tables
  obtain ⟨news, hslots, hmap, hnews⟩ := hg.slots
  have hrest : db₁.shards = (aborted db).shards ∧ db₁.users = db.users ∧
      db₁.devices = db.devices := by
    have h1 := congrArg DB.shards h₁.rest
    have h2 := congrArg DB.users h₁.rest
    have h3 := congrArg DB.devices h₁.rest
    exact ⟨h1, h2, h3⟩
  -- the slots before growth are those of the abort, but for pending secrets
  have hpair : ∀ s₁ ∈ db₁.slots, ∃ s₀ ∈ (aborted db).slots, s₁.noPending = s₀.noPending ∧
      (s₀.status = .dirty → s₁.pendingSecret ≠ none) ∧ ∀ v, s₁.pendingSecret = some v → D v := by
    intro s₁ hs₁
    obtain ⟨i, hi, rfl⟩ := List.mem_iff_getElem.1 hs₁
    have hl := h₁.slots.length_eq
    have := h₁.slots.get (by omega) hi
    simp only [List.get_eq_getElem] at this
    refine ⟨(aborted db).slots[i], List.getElem_mem _, ?_⟩
    split at this
    · obtain ⟨v, hDv, he⟩ := this
      rw [he]
      exact ⟨rfl, by simp, fun w hw => by rw [← Option.some.inj hw]; exact hDv⟩
    · rename_i hst
      rw [this]
      refine ⟨rfl, fun hd => absurd hd hst, fun v hv => ?_⟩
      rw [aborted_pending h (List.getElem_mem _)] at hv
      simp at hv
  have hpair' : ∀ s₀ ∈ (aborted db).slots, ∃ s₁ ∈ db₁.slots, s₁.noPending = s₀.noPending := by
    intro s₀ hs₀
    obtain ⟨i, hi, rfl⟩ := List.mem_iff_getElem.1 hs₀
    have hl := h₁.slots.length_eq
    have := h₁.slots.get hi (by omega)
    simp only [List.get_eq_getElem] at this
    refine ⟨db₁.slots[i], List.getElem_mem _, ?_⟩
    split at this
    · obtain ⟨v, -, he⟩ := this
      rw [he]
      rfl
    · rw [this]
  have holdid : ∀ sh ∈ (aborted db).shards, sh.id ∉ new := by
    intro sh hsh hm
    rw [hnew, hrest.1] at hm
    have h1 := ((layout_aborted h).mem_ids.1 (List.mem_map_of_mem hsh)).2
    have h2 := (mem_newIds.1 hm).1
    omega
  have hshards : ∀ sh ∈ db'.shards, (sh ∈ (aborted db).shards ∧ sh.active = 1) ∨
      (sh.active = 0 ∧ sh.id ∈ new) := by
    intro sh hsh
    rw [hg.shards, hrest.1] at hsh
    rcases List.mem_append.1 hsh with hsh | hsh
    · exact .inl ⟨hsh, ((mem_abortedShards h).1 hsh).2⟩
    · obtain ⟨k, hk, rfl⟩ := List.mem_map.1 hsh
      exact .inr ⟨rfl, hk⟩
  have hact : ∀ s₁ ∈ db₁.slots, OnActive db' s₁ := by
    intro s₁ hs₁
    obtain ⟨s₀, hs₀, he, -⟩ := hpair s₁ hs₁
    obtain ⟨sh, hsh, hid, ha⟩ := aborted_onActive h hs₀
    refine ⟨sh, ?_, by rw [hid, (noPending_eq_iff.1 he).2.1], ha⟩
    rw [hg.shards, hrest.1]
    exact List.mem_append_left _ hsh
  have hinact : ∀ s ∈ news, ¬ OnActive db' s := by
    rintro s hs ⟨sh, hsh, hid, ha⟩
    have hk : s.key ∈ new.flatMap shardKeys := by
      rw [← hmap]
      exact List.mem_map_of_mem hs
    obtain ⟨k, hk, hkey⟩ := List.mem_flatMap.1 hk
    have hsk : s.shardId = k := (mem_shardKeys.1 hkey).1
    rcases hshards sh hsh with ⟨hold, -⟩ | ⟨h0, -⟩
    · exact holdid sh hold (by rw [hid, hsk]; exact hk)
    · omega
  exact {
    inv := h₂.inv
    users := hu.trans hrest.2.1
    devices := hd.trans hrest.2.2
    kept := by
      intro s hs ha
      obtain ⟨s₁, hs₁, he⟩ := hpair' s.noPending ((mem_aborted h).2 ⟨s, hs, ha, rfl⟩)
      exact ⟨s₁, by rw [hslots]; exact List.mem_append_left _ hs₁, hact s₁ hs₁, he⟩
    origin := by
      intro s' hs'
      rw [hslots] at hs'
      rcases List.mem_append.1 hs' with hs' | hs'
      · obtain ⟨s₀, hs₀, he, -⟩ := hpair s' hs'
        obtain ⟨s, hs, ha, rfl⟩ := (mem_aborted h).1 hs₀
        exact .inl ⟨hact s' hs', s, hs, ha, he⟩
      · exact .inr ⟨hinact s' hs', (hnews s' hs').2.1, (hnews s' hs').2.2.2.2⟩
    pending := by
      intro s' hs' v hv
      rw [hslots] at hs'
      rcases List.mem_append.1 hs' with hs' | hs'
      · obtain ⟨-, -, -, -, hp⟩ := hpair s' hs'
        exact hp v hv
      · rw [(hnews s' hs').2.2.2.1] at hv
        simp at hv
    dirty := by
      intro s' hs' hst
      rw [hslots] at hs'
      rcases List.mem_append.1 hs' with hs' | hs'
      · obtain ⟨s₀, -, he, hp, -⟩ := hpair s' hs'
        exact hp (by rw [← (noPending_eq_iff.1 he).2.2.2.2.2.1]; exact hst)
      · rw [(hnews s' hs').2.1] at hst
        simp at hst
    restart := by
      intro k
      rw [h₁.restart k]
      constructor
      · rintro ⟨s₀, hs₀, hst, hk⟩
        obtain ⟨s₁, hs₁, he⟩ := hpair' s₀ hs₀
        refine ⟨s₁, by rw [hslots]; exact List.mem_append_left _ hs₁, ?_, ?_⟩
        · rw [(noPending_eq_iff.1 he).2.2.2.2.2.1, hst]
        · rw [(noPending_eq_iff.1 he).2.1, hk]
      · rintro ⟨s', hs', hst, hk⟩
        rw [hslots] at hs'
        rcases List.mem_append.1 hs' with hs' | hs'
        · obtain ⟨s₀, hs₀, he, -⟩ := hpair s' hs'
          refine ⟨s₀, hs₀, ?_, ?_⟩
          · rw [← (noPending_eq_iff.1 he).2.2.2.2.2.1, hst]
          · rw [← (noPending_eq_iff.1 he).2.1, hk]
        · rw [(hnews s' hs').2.1] at hst
          simp at hst
    inactive := by
      intro sh hsh
      rcases hshards sh hsh with ⟨hold, h1⟩ | ⟨h0, hn⟩
      · simp [h1, holdid sh hold]
      · simp [h0, hn]
    newIds := by
      intro k hk
      rw [hg.shards, List.map_append]
      refine List.mem_append_right _ (List.mem_map.2 ⟨_, List.mem_map.2 ⟨k, hk, rfl⟩, rfl⟩) }

theorem stageRows_wp (h : Inv db) (hD : ∀ v, D v → isTokenHex v = true) (growShards : Option Int)
    {Q : List Int × List Int → DB → Prop}
    (hQ : ∀ restart new db', Staged D db restart new db' → Q (restart, new) db') :
    (stageRows growShards).wp D Q db := by
  refine wp.bind (abortStaged_wp h (wp.bind ?_))
  refine stageDirty_wp (inv_aborted h) hD (fun s hs => aborted_pending h hs) fun restart db₁ h₁ =>
    ?_
  refine wp.bind (wp.mono (Q := fun _ db' => db' = db₁) ?_ fun count db₁' hdb => ?_)
  · cases growShards with
    | none => exact wp.query rfl
    | some n => exact wp.pure rfl
  · rw [hdb]
    refine wp.bind (createShards_wp h₁.inv hD fun db' h₂ => wp.pure ?_)
    refine hQ _ _ _ (staged_of_parts h h₁ ?_ h₂)
    simp [newIds]

/-! ## Commit -/

/-- A slot after `commit_staged`. -/
def Slot.committed (s : Slot) : Slot := if s.staged then s.commitPending else s

def committed (db : DB) : DB := { db with slots := db.slots.map Slot.committed }.activateShards

theorem Inv.staged_iff (h : Inv db) {s : Slot} (hs : s ∈ db.slots) :
    s.staged = true ↔ s.pendingSecret ≠ none := by
  simp only [Slot.staged, Bool.and_eq_true, Option.isSome_iff_ne_none, decide_eq_true_eq]
  exact ⟨fun hp => hp.1, fun hp => ⟨hp, h.pending s hs hp⟩⟩

/-- The row of a slot whose pending secret is `v`, and the row of one without. -/
theorem Inv.committed_some (h : Inv db) {s : Slot} (hs : s ∈ db.slots) {v : String}
    (hv : s.pendingSecret = some v) :
    s.committed = { s with secret := v, pendingSecret := none, status := .free } := by
  have hst : s.staged = true := (h.staged_iff hs).2 (by rw [hv]; simp)
  simp [Slot.committed, hst, Slot.commitPending, hv]

theorem Slot.committed_none {s : Slot} (hv : s.pendingSecret = none) : s.committed = s := by
  simp [Slot.committed, Slot.staged, hv]

theorem Slot.commitPending_same (s : Slot) :
    s.commitPending.id = s.id ∧ s.commitPending.shardId = s.shardId ∧
    s.commitPending.idx = s.idx ∧ s.commitPending.port = s.port ∧
      s.commitPending.deviceId = s.deviceId := by
  cases hv : s.pendingSecret <;> simp [Slot.commitPending, hv]

theorem Slot.committed_same (s : Slot) : s.committed.id = s.id ∧ s.committed.shardId = s.shardId ∧
    s.committed.idx = s.idx ∧ s.committed.port = s.port ∧ s.committed.deviceId = s.deviceId := by
  unfold Slot.committed
  split
  · exact s.commitPending_same
  · exact ⟨rfl, rfl, rfl, rfl, rfl⟩

/-- `commit_staged` after some of its rows. -/
def committing (done : List Slot) (db : DB) : DB :=
  { db with slots := update (fun s => decide (s ∈ done)) Slot.commitPending db.slots }

/-- Replacing secrets one row after another never repeats one: both columns together have no
repetition. -/
theorem consistent_committing (h : Inv db) (done : List Slot) :
    (committing done db).Consistent := by
  have hmap : ∀ {κ : Type} (g : Slot → κ), (∀ s : Slot, g s.commitPending = g s) →
      (committing done db).slots.map g = db.slots.map g :=
        fun g hg => map_update g (fun s _ => hg s) _
  have hdisj : ∀ s ∈ db.slots, ∀ t ∈ db.slots, ∀ v, s.pendingSecret = some v → t.secret ≠ v := by
    intro s hs t ht v hv he
    exact (List.nodup_append.1 h.secrets).2.2 v (List.mem_map.2 ⟨t, ht, he⟩) v
      (List.mem_filterMap.2 ⟨s, hs, hv⟩) rfl
  refine
    { h.consistent with
      slotId := by rw [hmap (·.id) fun s => s.commitPending_same.1]; exact h.consistent.slotId
      slotPort := by rw [hmap (·.port) fun s => s.commitPending_same.2.2.2.1]; exact h.consistent.slotPort
      slotSecret := ?_
      slotPending := ?_
      slotIdx := ?_
      slotShard := ?_
      deviceSlotRef := ?_ }
  · have : (committing done db).slots.map (·.secret) =
        db.slots.map fun s => (if s ∈ done then s.commitPending else s).secret := by
      simp only [committing, update, List.map_map]
      refine List.map_congr_left fun s _ => ?_
      by_cases hd : s ∈ done <;> simp [hd]
    rw [this]
    refine List.Nodup.map_on (fun s hs t ht he => ?_) (nodup_of_map h.consistent.slotId)
    -- either both secrets are old, or one is pending and then so is the other
    have hcase : ∀ s : Slot, (if s ∈ done then s.commitPending else s).secret = s.secret ∨
        ∃ v, s.pendingSecret = some v ∧ (if s ∈ done then s.commitPending else s).secret = v := by
      intro s
      by_cases hd : s ∈ done
      · rw [if_pos hd]
        cases hv : s.pendingSecret with
        | none => left; simp [Slot.commitPending, hv]
        | some v => right; exact ⟨v, rfl, by simp [Slot.commitPending, hv]⟩
      · rw [if_neg hd]
        exact .inl rfl
    rcases hcase s with h1 | ⟨v, hv, h1⟩
    · rcases hcase t with h2 | ⟨w, hw, h2⟩
      · exact eq_of_key h.consistent.slotSecret hs ht (by rw [← h1, he, h2])
      · exact absurd (by rw [← h1, he, h2]) (hdisj t ht s hs w hw)
    · rcases hcase t with h2 | ⟨w, hw, h2⟩
      · exact absurd (by rw [← h2, ← he, h1]) (hdisj s hs t ht v hv)
      · have hvw : v = w := by rw [← h1, he, h2]
        exact eq_of_nullKey h.consistent.slotPending hs ht hv (by rw [hvw]; exact hw)
  · have : (committing done db).slots.filterMap (·.pendingSecret) =
        db.slots.filterMap fun s => (if s ∈ done then s.commitPending else s).pendingSecret := by
      simp only [committing, update, List.filterMap_map]
      refine List.filterMap_congr fun s _ => ?_
      by_cases hd : s ∈ done <;> simp [hd]
    rw [this]
    refine (filterMap_sublist (fun s => ?_) db.slots).nodup h.consistent.slotPending
    by_cases hd : s ∈ done
    · right
      rw [if_pos hd]
      cases hv : s.pendingSecret <;> simp [Slot.commitPending, hv]
    · left
      rw [if_neg hd]
  · rw [hmap (fun s => (s.shardId, s.idx)) fun s => by
      rw [s.commitPending_same.2.1, s.commitPending_same.2.2.1]]
    exact h.consistent.slotIdx
  · intro s' hs'
    obtain ⟨s, hs, rfl⟩ := mem_update.1 hs'
    have hk : (if decide (s ∈ done) = true then s.commitPending else s).shardId = s.shardId := by
      split
      · exact s.commitPending_same.2.1
      · rfl
    rw [hk]
    exact h.consistent.slotShard s hs
  · intro d hd
    rw [hmap (·.id) fun s => s.commitPending_same.1]
    exact h.consistent.deviceSlotRef d hd

/-- All rows done: every slot is as `committed` says. -/
theorem committing_all (db : DB) :
    (committing (db.slots.filter Slot.staged) db).activateShards = committed db := by
  unfold committed committing
  congr 2
  refine List.map_congr_left fun s hs => ?_
  simp [Slot.committed, hs]

theorem mem_committed {s' : Slot} :
    s' ∈ (committed db).slots ↔ ∃ s ∈ db.slots, s' = s.committed := by
  simp [committed, DB.activateShards, eq_comm]

theorem committedShards_map {κ : Type} {g : Shard → κ}
    (hg : ∀ sh : Shard, g { sh with active := 1 } = g sh) :
    (committed db).shards.map g = db.shards.map g := by
  refine map_update g ?_ _
  intro sh _
  exact hg sh

theorem mem_committedShards {sh' : Shard} (h : Inv db) (hsh' : sh' ∈ (committed db).shards) :
    sh'.active = 1 ∧ ∃ sh ∈ db.shards, sh'.id = sh.id ∧ sh'.statsPort = sh.statsPort := by
  obtain ⟨sh, hsh, rfl⟩ := mem_update.1 hsh'
  have hbit := h.layout.activeBit sh hsh
  by_cases h0 : sh.active = 0
  · simp only [h0, decide_true, if_true]
    exact ⟨trivial, sh, hsh, rfl, rfl⟩
  · simp only [h0, decide_false, Bool.false_eq_true, if_false]
    exact ⟨by omega, sh, hsh, rfl, rfl⟩

/-- Every shard is active after a commit. -/
theorem onActive_committed (h : Inv db) {s' : Slot} (hs' : s' ∈ (committed db).slots) :
    OnActive (committed db) s' := by
  obtain ⟨s, hs, rfl⟩ := mem_committed.1 hs'
  have hid : s.committed.shardId ∈ (committed db).shards.map (·.id) := by
    rw [committedShards_map fun _ => rfl, s.committed_same.2.1]
    exact h.consistent.slotShard s hs
  obtain ⟨sh, hsh, he⟩ := List.mem_map.1 hid
  exact ⟨sh, hsh, he, (mem_committedShards h hsh).1⟩

theorem consistent_committed (h : Inv db) : (committed db).Consistent := by
  rw [← committing_all]
  have hc := consistent_committing h (db.slots.filter Slot.staged)
  have hids : ((committing (db.slots.filter Slot.staged) db).activateShards).shards.map (·.id) =
      db.shards.map (·.id) := by
    refine map_update (fun sh : Shard => sh.id) ?_ _
    intro sh _
    rfl
  have hstats : ((committing (db.slots.filter Slot.staged) db).activateShards).shards.map
      (·.statsPort) = db.shards.map (·.statsPort) := by
    refine map_update (fun sh : Shard => sh.statsPort) ?_ _
    intro sh _
    rfl
  exact { hc with
    shardId := by rw [hids]; exact h.consistent.shardId
    shardStats := by rw [hstats]; exact h.consistent.shardStats
    slotShard := by
      intro s hs
      rw [hids]
      exact hc.slotShard s hs }

theorem committed_pending (h : Inv db) {s' : Slot} (hs' : s' ∈ (committed db).slots) :
    s'.pendingSecret = none := by
  obtain ⟨s, hs, rfl⟩ := mem_committed.1 hs'
  cases hv : s.pendingSecret with
  | none => rw [Slot.committed_none hv]; exact hv
  | some v => rw [h.committed_some hs hv]

/-- An assigned slot is not dirty, so a commit leaves it. -/
theorem committed_of_assigned (h : Inv db) {s : Slot} (hs : s ∈ db.slots)
    (hst : s.status = .assigned) : s.committed = s := by
  cases hv : s.pendingSecret with
  | none => exact Slot.committed_none hv
  | some v =>
    have := h.pending s hs (by rw [hv]; simp)
    rw [this] at hst
    simp at hst

theorem committed_assigned (h : Inv db) {s : Slot} (hs : s ∈ db.slots)
    (hst : s.committed.status = .assigned) : s.committed = s := by
  cases hv : s.pendingSecret with
  | none => exact Slot.committed_none hv
  | some v =>
    rw [h.committed_some hs hv] at hst
    simp at hst

theorem inv_committed (h : Inv db) : Inv (committed db) := by
  have hc := consistent_committed h
  refine
    { consistent := hc
      layout :=
        { shardIds := ?_
          limit := ?_
          stats := ?_
          activeBit := fun sh hsh => .inr (mem_committedShards h hsh).1
          activeFirst := fun sh hsh _ _ _ _ => (mem_committedShards h hsh).1
          slots := ?_
          ports := ?_ }
      linked := ⟨?_, ?_, ?_⟩
      secrets := ?_
      tokens := ?_
      pending := fun s hs hp => absurd (committed_pending h hs) hp
      inactive := fun s hs hna => absurd (onActive_committed h hs) hna
      enabledBit := h.enabledBit }
  · have hlen : (committed db).shards.length = db.shards.length := length_update _ _ _
    rw [committedShards_map fun _ => rfl, hlen]
    exact h.layout.shardIds
  · have hlen : (committed db).shards.length = db.shards.length := length_update _ _ _
    rw [hlen]
    exact h.layout.limit
  · intro sh' hsh'
    obtain ⟨-, sh, hsh, hid, hst⟩ := mem_committedShards h hsh'
    rw [hst, hid]
    exact h.layout.stats sh hsh
  · change (committed db).slots.map Slot.key = (committed db).shards.flatMap fun sh =>
      shardKeys sh.id
    have hk : (committed db).slots.map Slot.key = db.slots.map Slot.key := by
      simp only [committed, DB.activateShards, List.map_map]
      refine List.map_congr_left fun s _ => ?_
      simp only [Function.comp_apply, Slot.key, s.committed_same.2.1, s.committed_same.2.2.1]
    have hf : ((committed db).shards.flatMap fun sh => shardKeys sh.id) =
        db.shards.flatMap fun sh => shardKeys sh.id := by
      rw [← List.flatMap_map, committedShards_map fun _ => rfl, List.flatMap_map]
    rw [hk, hf]
    exact h.layout.keys
  · intro s' hs'
    obtain ⟨s, hs, rfl⟩ := mem_committed.1 hs'
    rw [s.committed_same.2.2.2.1, s.committed_same.2.1, s.committed_same.2.2.1]
    exact h.layout.ports s hs
  · intro s' hs' hst
    obtain ⟨s, hs, rfl⟩ := mem_committed.1 hs'
    have he := committed_assigned h hs hst
    rw [he] at hst ⊢
    exact h.linked.assigned s hs hst
  · intro s' hs' hst
    obtain ⟨s, hs, rfl⟩ := mem_committed.1 hs'
    rw [s.committed_same.2.2.2.2]
    refine h.linked.unassigned s hs fun ha => hst ?_
    rw [committed_of_assigned h hs ha]
    exact ha
  · intro d hd
    obtain ⟨s, hs, hid, hst⟩ := h.linked.device d hd
    exact ⟨s, mem_committed.2 ⟨s, hs, (committed_of_assigned h hs hst).symm⟩, hid, hst⟩
  · have hnil : (committed db).slots.filterMap (·.pendingSecret) = [] :=
      List.filterMap_eq_nil_iff.2 fun s hs => committed_pending h hs
    unfold allSecrets
    rw [hnil, List.append_nil]
    exact hc.slotSecret
  · intro v hv
    rcases List.mem_append.1 hv with hv | hv
    · obtain ⟨s', hs', rfl⟩ := List.mem_map.1 hv
      obtain ⟨s, hs, rfl⟩ := mem_committed.1 hs'
      cases hp : s.pendingSecret with
      | none =>
        rw [Slot.committed_none hp]
        exact h.tokens _ (List.mem_append_left _ (List.mem_map.2 ⟨s, hs, rfl⟩))
      | some w =>
        rw [h.committed_some hs hp]
        exact h.tokens _ (List.mem_append_right _ (List.mem_filterMap.2 ⟨s, hs, hp⟩))
    · obtain ⟨s, hs, hp⟩ := List.mem_filterMap.1 hv
      rw [committed_pending h hs] at hp
      simp at hp

theorem commitStaged_wp (h : Inv db) {Q : Unit → DB → Prop} (hQ : Q () (committed db)) :
    commitStaged.wp D Q db := by
  refine wp.bind (wp.query (wp.bind ?_))
  have hrows : (db.slots.filter Slot.staged).Nodup := (nodup_of_map h.consistent.slotId).filter _
  refine (wp.forM (I := fun done db' => db' = committing done db) ?_ ?_).mono ?_
  · rintro pre x post hsplit db' rfl
    rw [hsplit] at hrows
    have hxpre : x ∉ pre := fun hm => (List.nodup_append.1 hrows).2.2 x hm x (by simp) rfl
    have hxmem : x ∈ db.slots := by
      have : x ∈ db.slots.filter Slot.staged := by rw [hsplit]; simp
      exact (List.mem_filter.1 this).1
    have heq : DB.updateSlot x.id Slot.commitPending (committing pre db) =
        committing (pre ++ [x]) db := by
      simp only [DB.updateSlot, committing, DB.mk.injEq, true_and, and_true]
      simp only [update, List.map_map]
      refine List.map_congr_left fun s hs => ?_
      simp only [Function.comp_apply, decide_eq_true_eq, List.mem_append, List.mem_singleton]
      by_cases hp : s ∈ pre
      · have hne : s.commitPending.id ≠ x.id := by
          rw [s.commitPending_same.1]
          exact fun he => hxpre (by rw [← eq_of_key h.consistent.slotId hs hxmem he]; exact hp)
        have hin : s ∈ pre ∨ s = x := .inl hp
        rw [if_pos hp, if_neg hne, if_pos hin]
      · by_cases hx : s = x
        · have hin : s ∈ pre ∨ s = x := .inr hx
          rw [if_neg hp, if_pos (by rw [hx]), if_pos hin]
        · have hne : s.id ≠ x.id := fun he => hx (eq_of_key h.consistent.slotId hs hxmem he)
          have hout : ¬ (s ∈ pre ∨ s = x) := not_or.2 ⟨hp, hx⟩
          rw [if_neg hp, if_neg hne, if_neg hout]
    refine wp.execute ?_ heq
    rw [heq]
    exact consistent_committing h _
  · simp [committing, update]
  · rintro _ db' rfl
    refine wp.execute ?_ ?_
    · rw [committing_all]
      exact consistent_committed h
    · rw [committing_all]
      exact hQ

end WebProxyPanel
