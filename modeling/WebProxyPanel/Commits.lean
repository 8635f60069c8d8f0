import WebProxyPanel.CommitSpec
/-!
# What one COMMIT may do

* `PathOk` — a generated file lists, for every free or assigned slot of an active shard, the secret
  that the database has for it.
* `PathFull` — it lists every slot, a staged one with its pending secret; so `apply` renders it.
* `SecretStep` — where the secrets of assigned and free slots come from.
* `CommitOk` — the obligations of a COMMIT, whichever operation makes it; one theorem for each kind
  of transaction.
-/

namespace WebProxyPanel
open Table

variable {db db' : DB} {D : String → Prop}

/-! ## Generated files -/

/-- `profiles.json` has the profile named after the slot, with this secret and the slot's backend.
-/
def ListsProfile (ps : List Profile) (s : Slot) (secret : String) : Prop :=
  ∃ p ∈ ps, p.name = profileName s.shardId s.idx ∧ p.secret = secret ∧
    p.backend = "127.0.0.1:" ++ toString s.port

/-- The shard's env file lists the slot's port and, in the same place, this secret. -/
def ListsPort (text : String) (s : Slot) (secret : String) : Prop :=
  ∃ e : ShardEnv, text = e.text ∧ (s.port, secret) ∈ e.ports.zip e.secrets

def PathOk (db : DB) (path : Path) (data : Option Content) : Prop :=
  match path with
  | .profiles => ∀ s ∈ db.slots, OnActive db s → s.status ≠ .dirty →
      ∃ ps, data = some (.profiles ps) ∧ ListsProfile ps s s.secret
  | .shardEnv k => ∀ s ∈ db.slots, s.shardId = k → OnActive db s → s.status ≠ .dirty →
      ∃ text, data = some (.text text) ∧ ListsPort text s s.secret
  | _ => True

/-- Every issued link is valid on disk. -/
def FilesOk (db : DB) (files : Path → Option Content) : Prop := ∀ path, PathOk db path (files path)

def PathFull (db : DB) (path : Path) (data : Option Content) : Prop :=
  match path with
  | .profiles =>
    ∃ ps, data = some (.profiles ps) ∧ ∀ s ∈ db.slots, ListsProfile ps s s.renderedSecret
  | .shardEnv k =>
    ∃ text, data = some (.text text) ∧ ∀ s ∈ db.slots, s.shardId = k →
      ListsPort text s s.renderedSecret
  | _ => True

theorem ListsProfile.congr {ps : List Profile} {s s' : Slot} {v : String} (h : ListsProfile ps s v)
    (hs : s'.shardId = s.shardId ∧ s'.idx = s.idx ∧ s'.port = s.port) : ListsProfile ps s' v := by
  obtain ⟨p, hp, h1, h2, h3⟩ := h
  exact ⟨p, hp, by rw [hs.1, hs.2.1, h1], h2, by rw [hs.2.2, h3]⟩

theorem ListsPort.congr {text : String} {s s' : Slot} {v : String} (h : ListsPort text s v)
    (hs : s'.port = s.port) : ListsPort text s' v := by
  obtain ⟨e, he, hm⟩ := h
  exact ⟨e, he, by rw [hs]; exact hm⟩

/-- A user operation can only take slots out of those whose links must be valid. -/
theorem PathOk.frame {path : Path} {data : Option Content} (hf : PoolFrame db db')
    (h : PathOk db path data) : PathOk db' path data := by
  have hback : ∀ s' ∈ db'.slots, OnActive db' s' → s'.status ≠ .dirty →
      ∃ s ∈ db.slots, OnActive db s ∧ s.status ≠ .dirty ∧ s'.core = s.core := by
    intro s' hs' ha hst
    obtain ⟨s, hs, hp⟩ := hf.before hs'
    refine ⟨s, hs, (hf.onActive hp).1 ha, ?_, hp.1⟩
    rcases hp.2 with rfl | ⟨_, ⟨hfree, _⟩ | hd⟩
    · exact hst
    · rw [hfree]
      decide
    · exact absurd hd hst
  cases path with
  | profiles =>
    intro s' hs' ha hst
    obtain ⟨s, hs, ha₀, hst₀, hc⟩ := hback s' hs' ha hst
    obtain ⟨-, h2, h3, h4, h5, -⟩ := core_eq_iff.1 hc
    obtain ⟨ps, hps, hl⟩ := h s hs ha₀ hst₀
    exact ⟨ps, hps, by rw [h5]; exact hl.congr ⟨h2, h3, h4⟩⟩
  | shardEnv k =>
    intro s' hs' hk ha hst
    obtain ⟨s, hs, ha₀, hst₀, hc⟩ := hback s' hs' ha hst
    obtain ⟨-, h2, -, h4, h5, -⟩ := core_eq_iff.1 hc
    obtain ⟨text, ht, hl⟩ := h s hs (by rw [← h2, hk]) ha₀ hst₀
    exact ⟨text, ht, by rw [h5]; exact hl.congr h4⟩
  | relayConfig => trivial
  | candidate p => trivial

theorem PathFull.frame {path : Path} {data : Option Content} (hf : PoolFrame db db')
    (h : PathFull db path data) : PathFull db' path data := by
  have hback : ∀ s' ∈ db'.slots, ∃ s ∈ db.slots, s'.renderedSecret = s.renderedSecret ∧
      s'.core = s.core := by
    intro s' hs'
    obtain ⟨s, hs, hp⟩ := hf.before hs'
    obtain ⟨-, -, -, -, h5, h6⟩ := core_eq_iff.1 hp.1
    exact ⟨s, hs, by simp only [Slot.renderedSecret, h5, h6], hp.1⟩
  cases path with
  | profiles =>
    obtain ⟨ps, hps, hl⟩ := h
    refine ⟨ps, hps, fun s' hs' => ?_⟩
    obtain ⟨s, hs, hr, hc⟩ := hback s' hs'
    obtain ⟨-, h2, h3, h4, -⟩ := core_eq_iff.1 hc
    rw [hr]
    exact (hl s hs).congr ⟨h2, h3, h4⟩
  | shardEnv k =>
    obtain ⟨text, ht, hl⟩ := h
    refine ⟨text, ht, fun s' hs' hk => ?_⟩
    obtain ⟨s, hs, hr, hc⟩ := hback s' hs'
    obtain ⟨-, h2, -, h4, -⟩ := core_eq_iff.1 hc
    rw [hr]
    exact (hl s hs (by rw [← h2, hk])).congr h4
  | relayConfig => trivial
  | candidate p => trivial

theorem isTokenHex_ne_empty {v : String} (h : isTokenHex v = true) : v ≠ "" := by
  rintro rfl
  revert h
  decide

theorem Slot.renderedSecret_none {s : Slot} (h : s.pendingSecret = none) :
    s.renderedSecret = s.secret := by
  simp [Slot.renderedSecret, h]

theorem Inv.renderedSecret_some (h : Inv db) {s : Slot} (hs : s ∈ db.slots) {v : String}
    (hv : s.pendingSecret = some v) : s.renderedSecret = v := by
  have hne : v ≠ "" :=
    isTokenHex_ne_empty (h.tokens v (List.mem_append_right _ (List.mem_filterMap.2 ⟨s, hs, hv⟩)))
  simp [Slot.renderedSecret, hv, hne]

/-- Staging touches only dirty slots, so what is rendered for the others is what the database has.
-/
theorem PathFull.ok (h : Inv db) {path : Path} {data : Option Content}
    (hf : PathFull db path data) : PathOk db path data := by
  have hnone : ∀ s ∈ db.slots, s.status ≠ .dirty → s.renderedSecret = s.secret := by
    intro s hs hst
    refine Slot.renderedSecret_none ?_
    by_contra hp
    exact hst (h.pending s hs hp)
  cases path with
  | profiles =>
    obtain ⟨ps, hps, hl⟩ := hf
    intro s hs _ hst
    exact ⟨ps, hps, by rw [← hnone s hs hst]; exact hl s hs⟩
  | shardEnv k =>
    obtain ⟨text, ht, hl⟩ := hf
    intro s hs hk _ hst
    exact ⟨text, ht, by rw [← hnone s hs hst]; exact hl s hs hk⟩
  | relayConfig => trivial
  | candidate p => trivial

theorem pathFull_renderProfiles (limits : Dict) (db : DB) :
    PathFull db .profiles (some (.profiles (renderProfiles limits db))) := by
  refine ⟨_, rfl, fun s hs => ⟨s.profile limits, ?_, rfl, rfl, rfl⟩⟩
  exact List.mem_map_of_mem (mem_orderBy.2 hs)

theorem pathFull_renderShardEnv {cfg : Config} {k : Int} {text : String}
    (h : renderShardEnv cfg k db = .ok text) : PathFull db (.shardEnv k) (some (.text text)) := by
  unfold renderShardEnv at h
  split at h
  · simp at h
  · have ht : (shardEnv cfg k (shardRows k db)).text = text := by simpa using h
    refine ⟨text, rfl, fun s hs hk => ⟨shardEnv cfg k (shardRows k db), ht.symm, ?_⟩⟩
    have hrow : s ∈ shardRows k db := mem_orderBy.2 (List.mem_filter.2 ⟨hs, by simpa using hk⟩)
    have hzip : (shardRows k db).map (fun s => (s.port, s.renderedSecret)) =
        ((shardRows k db).map (·.port)).zip ((shardRows k db).map Slot.renderedSecret) := by
      rw [List.zip_map']
    change (s.port, s.renderedSecret) ∈
      ((shardRows k db).map (·.port)).zip ((shardRows k db).map Slot.renderedSecret)
    rw [← hzip]
    exact List.mem_map.2 ⟨s, hrow, rfl⟩

/-- All that `commit_staged` is going to make valid is on disk. -/
def Written (db : DB) (files : Path → Option Content) : Prop :=
  PathFull db .profiles (files .profiles) ∧
    ∀ s ∈ db.slots, s.pendingSecret ≠ none ∨ ¬ OnActive db s →
      PathFull db (.shardEnv s.shardId) (files (.shardEnv s.shardId))

theorem filesOk_committed (h : Inv db) {files : Path → Option Content} (hok : FilesOk db files)
    (hw : Written db files) : FilesOk (committed db) files := by
  -- a slot that was staged, or whose shard is new, is rendered; any other one is as before
  intro path
  cases path with
  | profiles =>
    rintro s' hs' - -
    obtain ⟨s, hs, rfl⟩ := mem_committed.1 hs'
    obtain ⟨ps, hps, hl⟩ := hw.1
    obtain ⟨-, h2, h3, h4, -⟩ := s.committed_same
    refine ⟨ps, hps, ListsProfile.congr (s := s) ?_ ⟨h2, h3, h4⟩⟩
    cases hv : s.pendingSecret with
    | none =>
      rw [Slot.committed_none hv, ← Slot.renderedSecret_none hv]
      exact hl s hs
    | some v =>
      rw [h.committed_some hs hv]
      have := hl s hs
      rw [h.renderedSecret_some hs hv] at this
      exact this
  | shardEnv k =>
    rintro s' hs' hk - hst
    obtain ⟨s, hs, rfl⟩ := mem_committed.1 hs'
    obtain ⟨-, h2, -, h4, -⟩ := s.committed_same
    rw [h2] at hk
    cases hv : s.pendingSecret with
    | none =>
      rw [Slot.committed_none hv] at hst ⊢
      by_cases ha : OnActive db s
      · exact hok (.shardEnv k) s hs hk ha hst
      · obtain ⟨text, ht, hl⟩ := hw.2 s hs (.inr ha)
        rw [hk] at ht hl
        refine ⟨text, ht, ?_⟩
        rw [← Slot.renderedSecret_none hv]
        exact hl s hs hk
    | some v =>
      obtain ⟨text, ht, hl⟩ := hw.2 s hs (.inl (by rw [hv]; simp))
      rw [hk] at ht hl
      refine ⟨text, ht, ListsPort.congr (s := s) ?_ h4⟩
      have := hl s hs hk
      rw [h.renderedSecret_some hs hv] at this
      rw [h.committed_some hs hv]
      exact this
  | relayConfig => trivial
  | candidate p => trivial

theorem FilesOk.stage {files : Path → Option Content} (h : FilesOk db files)
    (hs : StageStep D db db') : FilesOk db' files := by
  have hback : ∀ s' ∈ db'.slots, OnActive db' s' → s'.status ≠ .dirty →
      ∃ s ∈ db.slots, OnActive db s ∧ s.status ≠ .dirty ∧ s'.noPending = s.noPending := by
    intro s' hs' ha hst
    rcases hs.origin s' hs' with ⟨-, s, hm, ha₀, he⟩ | ⟨hna, -, -⟩
    · exact ⟨s, hm, ha₀, by rw [← (noPending_eq_iff.1 he).2.2.2.2.2.1]; exact hst, he⟩
    · exact absurd ha hna
  intro path
  cases path with
  | profiles =>
    intro s' hs' ha hst
    obtain ⟨s, hm, ha₀, hst₀, he⟩ := hback s' hs' ha hst
    obtain ⟨-, h2, h3, h4, h5, -⟩ := noPending_eq_iff.1 he
    obtain ⟨ps, hps, hl⟩ := h .profiles s hm ha₀ hst₀
    exact ⟨ps, hps, by rw [h5]; exact hl.congr ⟨h2, h3, h4⟩⟩
  | shardEnv k =>
    intro s' hs' hk ha hst
    obtain ⟨s, hm, ha₀, hst₀, he⟩ := hback s' hs' ha hst
    obtain ⟨-, h2, -, h4, h5, -⟩ := noPending_eq_iff.1 he
    obtain ⟨text, ht, hl⟩ := h (.shardEnv k) s hm (by rw [← h2, hk]) ha₀ hst₀
    exact ⟨text, ht, by rw [h5]; exact hl.congr h4⟩
  | relayConfig => trivial
  | candidate p => trivial

/-! ## Secrets and links -/

structure SecretStep (D : String → Prop) (db db' : DB) : Prop where
  assigned : ∀ s' ∈ db'.slots, s'.status = .assigned →
    (∃ s ∈ db.slots, s.status = .free ∧ s.secret = s'.secret) ∨
      ∃ s ∈ db.slots, s.status = .assigned ∧ s.id = s'.id ∧ s.deviceId = s'.deviceId ∧
      s.secret = s'.secret
  free : ∀ s' ∈ db'.slots, s'.status = .free →
    (∃ s ∈ db.slots, s.status = .free ∧ s.secret = s'.secret) ∨
      (∃ s ∈ db.slots, s.pendingSecret = some s'.secret) ∨ D s'.secret
  pending : ∀ s' ∈ db'.slots, ∀ v, s'.pendingSecret = some v →
    (∃ s ∈ db.slots, s.pendingSecret = some v) ∨ D v

/-- A device is still on its slot, and the slot has its port and secret. -/
def KeepsLink (db db' : DB) (d : Device) : Prop :=
  KeepsSlot db' d ∧ ∀ s ∈ db.slots, s.id = d.slotId →
    ∃ s' ∈ db'.slots, s'.id = s.id ∧ s'.port = s.port ∧ s'.secret = s.secret

theorem SecretStep.of_slots {db'' : DB} (hs : db''.slots = db'.slots) (h : SecretStep D db db') :
    SecretStep D db db'' :=
  ⟨by rw [hs]; exact h.assigned, by rw [hs]; exact h.free, by rw [hs]; exact h.pending⟩

theorem SecretStep.frame (hf : PoolFrame db db') : SecretStep D db db' where
  assigned := by
    intro s' hs' hst
    obtain ⟨s, hs, hp⟩ := hf.before hs'
    have hsec := (core_eq_iff.1 hp.1).2.2.2.2.1
    rcases hp.2 with rfl | ⟨_, ⟨hfree, _⟩ | hd⟩
    · exact .inr ⟨s', hs, hst, rfl, rfl, rfl⟩
    · exact .inl ⟨s, hs, hfree, hsec.symm⟩
    · rw [hd] at hst
      simp at hst
  free := by
    intro s' hs' hst
    obtain ⟨s, hs, hp⟩ := hf.before hs'
    rcases hp.2 with rfl | ⟨_, ⟨_, ha⟩ | hd⟩
    · exact .inl ⟨s', hs, hst, rfl⟩
    · rw [ha] at hst
      simp at hst
    · rw [hd] at hst
      simp at hst
  pending := by
    intro s' hs' v hv
    obtain ⟨s, hs, hp⟩ := hf.before hs'
    exact .inl ⟨s, hs, by rw [← (core_eq_iff.1 hp.1).2.2.2.2.2]; exact hv⟩

theorem SecretStep.stage (hs : StageStep D db db') : SecretStep D db db' where
  assigned := by
    intro s' hs' hst
    rcases hs.origin s' hs' with ⟨-, s, hm, -, he⟩ | ⟨-, hfree, -⟩
    · obtain ⟨h1, -, -, -, h5, h6, h7⟩ := noPending_eq_iff.1 he
      exact .inr ⟨s, hm, by rw [← h6]; exact hst, h1.symm, h7.symm, h5.symm⟩
    · rw [hfree] at hst
      simp at hst
  free := by
    intro s' hs' hst
    rcases hs.origin s' hs' with ⟨-, s, hm, -, he⟩ | ⟨-, -, hD⟩
    · obtain ⟨-, -, -, -, h5, h6, -⟩ := noPending_eq_iff.1 he
      exact .inl ⟨s, hm, by rw [← h6]; exact hst, h5.symm⟩
    · exact .inr (.inr hD)
  pending := fun s' hs' v hv => .inr (hs.pending s' hs' v hv)

theorem SecretStep.committed (h : Inv db) : SecretStep D db (WebProxyPanel.committed db) where
  assigned := by
    intro s' hs' hst
    obtain ⟨s, hs, rfl⟩ := mem_committed.1 hs'
    have he := committed_assigned h hs hst
    rw [he] at hst ⊢
    exact .inr ⟨s, hs, hst, rfl, rfl, rfl⟩
  free := by
    intro s' hs' hst
    obtain ⟨s, hs, rfl⟩ := mem_committed.1 hs'
    cases hv : s.pendingSecret with
    | none =>
      rw [Slot.committed_none hv] at hst ⊢
      exact .inl ⟨s, hs, hst, rfl⟩
    | some v =>
      rw [h.committed_some hs hv]
      exact .inr (.inl ⟨s, hs, hv⟩)
  pending := by
    intro s' hs' v hv
    rw [committed_pending h hs'] at hv
    simp at hv

theorem KeepsLink.frame (hf : PoolFrame db db') {d : Device} (hk : KeepsSlot db' d) :
    KeepsLink db db' d := by
  refine ⟨hk, fun s hs _ => ?_⟩
  obtain ⟨s', hs', hp⟩ := hf.after hs
  obtain ⟨h1, -, -, h4, h5, -⟩ := core_eq_iff.1 hp.1
  exact ⟨s', hs', h1, h4, h5⟩

theorem Inv.active_of_device (h : Inv db) {d : Device} (hd : d ∈ db.devices) {s : Slot}
    (hs : s ∈ db.slots) (hid : s.id = d.slotId) : s.status = .assigned ∧ OnActive db s := by
  obtain ⟨s', hs', hid', hst⟩ := h.linked.device d hd
  rw [eq_of_key h.consistent.slotId hs' hs (hid'.trans hid.symm)] at hst
  refine ⟨hst, ?_⟩
  by_contra hna
  rw [h.inactive s hs hna] at hst
  simp at hst

theorem KeepsLink.stage (h : Inv db) (hst : StageStep D db db') {d : Device} (hd : d ∈ db.devices) :
    KeepsLink db db' d := by
  refine ⟨⟨d, by rw [hst.devices]; exact hd, rfl, rfl, rfl⟩, fun s hs hid => ?_⟩
  obtain ⟨s', hs', -, he⟩ := hst.kept s hs (h.active_of_device hd hs hid).2
  obtain ⟨h1, -, -, h4, h5, -⟩ := noPending_eq_iff.1 he
  exact ⟨s', hs', h1, h4, h5⟩

theorem KeepsLink.committed (h : Inv db) {d : Device} (hd : d ∈ db.devices) :
    KeepsLink db (WebProxyPanel.committed db) d := by
  refine ⟨⟨d, hd, rfl, rfl, rfl⟩, fun s hs hid => ?_⟩
  have he := committed_of_assigned h hs (h.active_of_device hd hs hid).1
  exact ⟨s, mem_committed.2 ⟨s, hs, he.symm⟩, rfl, rfl, rfl⟩

/-! ## Openness through a pool transaction -/

theorem isOpen_of_tables {s s' : Slot} (hu : db'.users = db.users) (hd : db'.devices = db.devices)
    (hid : s'.id = s.id) (hst : s'.status = s.status) (hact : OnActive db' s' ↔ OnActive db s) :
    IsOpen db' s' ↔ IsOpen db s := by
  simp only [IsOpen, HasEnabledUser, hu, hd, hid, hst, hact]

theorem FwStep.stage (h : Inv db) (hs : StageStep D db db') : FwStep db [] db' := by
  intro s' hs' ha
  rcases hs.origin s' hs' with ⟨-, s, hm, ha₀, he⟩ | ⟨hna, -, -⟩
  · obtain ⟨h1, -, -, h4, -, h6, -⟩ := noPending_eq_iff.1 he
    rw [runCalls_nil, hs.inv.mem_blockedSet hs', h4, h.mem_blockedSet hm,
      isOpen_of_tables hs.users hs.devices h1 h6 (by simp [ha, ha₀])]
  · exact absurd ha hna

theorem FwStep.committed (h : Inv db) : FwStep db [] (WebProxyPanel.committed db) := by
  intro s' hs' ha
  obtain ⟨s, hs, rfl⟩ := mem_committed.1 hs'
  rw [runCalls_nil, (inv_committed h).mem_blockedSet hs', s.committed_same.2.2.2.1,
    h.mem_blockedSet hs]
  by_cases hst : s.status = .assigned
  · -- an assigned slot's shard was active already
    have hact : OnActive db s := by
      by_contra hna
      rw [h.inactive s hs hna] at hst
      simp at hst
    rw [committed_of_assigned h hs hst] at ha ⊢
    have hd : (WebProxyPanel.committed db).devices = db.devices := rfl
    have hu : (WebProxyPanel.committed db).users = db.users := rfl
    rw [isOpen_of_tables hu hd rfl rfl (by simp [ha, hact])]
  · have hst' : s.committed.status ≠ .assigned :=
      fun hc => hst (by rw [← committed_assigned h hs hc]; exact hc)
    simp [IsOpen, hst, hst']

/-! ## The obligations of a COMMIT -/

/-- A slot of an active shard was on one before, or the process has blocked its port itself. -/
def NewlyActive (synced : Bool) (db db' : DB) : Prop :=
  ∀ s' ∈ db'.slots, OnActive db' s' → (∃ s ∈ db.slots, s.port = s'.port ∧ OnActive db s) ∨
    (synced = true ∧ s'.port ∈ blockedSet db' ∧ ∃ s ∈ db.slots, s.port = s'.port ∧ ¬ OnActive db s)

/-- The slots of inactive shards were there before. -/
def OldInactive (db db' : DB) : Prop :=
  ∀ s' ∈ db'.slots, ¬ OnActive db' s' → ∃ s ∈ db.slots, s.port = s'.port ∧ ¬ OnActive db s

structure CommitOk (moves : Int → Int → Prop) (l : Own) (w : World) (tx : Tx) : Prop where
  whole : tx.failed = false
  inv : Inv tx.copy
  fw : FwStep w.db tx.issued tx.copy
  frame : l.locked = false → PoolFrame w.db tx.copy
  active : NewlyActive l.synced w.db tx.copy
  unnamed : l.locked = true → tx.issued = []
  inactive : l.synced = true → OldInactive w.db tx.copy
  files : FilesOk w.db w.files → FilesOk tx.copy w.files
  secrets : SecretStep (· ∈ tx.drawn) w.db tx.copy
  links : ∀ d ∈ w.db.devices, moves d.id d.userId ∨ KeepsLink w.db tx.copy d

theorem NewlyActive.frame (hf : PoolFrame db db') (synced : Bool) : NewlyActive synced db db' := by
  intro s' hs' ha
  obtain ⟨s, hs, hp⟩ := hf.before hs'
  exact .inl ⟨s, hs, (core_eq_iff.1 hp.1).2.2.2.1.symm, (hf.onActive hp).1 ha⟩

theorem OldInactive.frame (hf : PoolFrame db db') : OldInactive db db' := by
  intro s' hs' hna
  obtain ⟨s, hs, hp⟩ := hf.before hs'
  exact ⟨s, hs, (core_eq_iff.1 hp.1).2.2.2.1.symm, fun ha => hna ((hf.onActive hp).2 ha)⟩

section CommitOk
variable {moves : Int → Int → Prop} {l : Own} {w : World} {tx : Tx}

/-- A user operation. -/
theorem CommitOk.user (hl : l.locked = false) (hfail : tx.failed = false)
    (h : UserStep moves w.db tx.issued tx.copy) : CommitOk moves l w tx where
  whole := hfail
  inv := h.inv
  fw := h.fw
  frame _ := h.frame
  active := .frame h.frame l.synced
  unnamed := by simp [hl]
  inactive _ := .frame h.frame
  files hok path := PathOk.frame h.frame (hok path)
  secrets := .frame h.frame
  links d hd := (h.links d hd).imp_right (KeepsLink.frame h.frame)

/-- A transaction that changes nothing. -/
theorem CommitOk.nothing (h : Inv w.db) (hfail : tx.failed = false) (hcopy : tx.copy = w.db)
    (hcalls : tx.issued = []) :
    CommitOk moves l w tx where
  whole := hfail
  inv := by rw [hcopy]; exact h
  fw := by rw [hcopy, hcalls]; exact .refl _
  frame _ := by rw [hcopy]; exact .refl _
  active := by rw [hcopy]; exact .frame (.refl _) _
  unnamed _ := hcalls
  inactive _ := by rw [hcopy]; exact .frame (.refl _)
  files := by rw [hcopy]; exact id
  secrets := by rw [hcopy]; exact .frame (.refl _)
  links d hd := by rw [hcopy]; exact .inr (.frame (.refl _) (.of_mem hd))

/-- Staging by the holder of the pool lock, before it has replaced the table. -/
theorem CommitOk.stage (hl : l.locked = true)
    (hsync : l.synced = false ∨ ∀ s' ∈ tx.copy.slots, OnActive tx.copy s')
    (hfail : tx.failed = false) (hcalls : tx.issued = []) (h : Inv w.db)
    (hs : StageStep (· ∈ tx.drawn) w.db tx.copy) : CommitOk moves l w tx where
  whole := hfail
  inv := hs.inv
  fw := by rw [hcalls]; exact .stage h hs
  frame hf := by rw [hl] at hf; simp at hf
  active := by
    intro s' hs' ha
    rcases hs.origin s' hs' with ⟨-, s, hm, ha₀, he⟩ | ⟨hna, -, -⟩
    · exact .inl ⟨s, hm, (noPending_eq_iff.1 he).2.2.2.1.symm, ha₀⟩
    · exact absurd ha hna
  unnamed _ := hcalls
  inactive hsy := by
    intro s' hs' hna
    rcases hsync with h0 | hall
    · rw [h0] at hsy
      simp at hsy
    · exact absurd (hall s' hs') hna
  files hok := FilesOk.stage hok hs
  secrets := .stage hs
  links d hd := .inr (KeepsLink.stage h hs hd)

/-- The final transaction of `apply`: the files are written, and new shards were blocked. -/
theorem CommitOk.committed (hl : l.locked = true) (hfail : tx.failed = false)
    (hcalls : tx.issued = [])
    (hcopy : ∃ ev : List Event, tx.copy = { committed w.db with events := ev } ∧ Inv tx.copy)
    (hsync : l.synced = true ∨ ∀ s ∈ w.db.slots, OnActive w.db s) (h : Inv w.db)
    (hw : Written w.db w.files) : CommitOk moves l w tx := by
  obtain ⟨ev, hcopy, hinv⟩ := hcopy
  -- the journal plays no part in what follows
  have hslots : tx.copy.slots = (WebProxyPanel.committed w.db).slots := by rw [hcopy]
  have hact : ∀ s, OnActive tx.copy s ↔ OnActive (WebProxyPanel.committed w.db) s := by
    intro s
    rw [hcopy]
    rfl
  have hset : blockedSet tx.copy = blockedSet (WebProxyPanel.committed w.db) := by
    rw [hcopy]
    rfl
  exact {
    whole := hfail
    inv := hinv
    fw := by
      intro s' hs' ha
      rw [hcalls, hset]
      exact FwStep.committed h s' (hslots ▸ hs') ((hact s').1 ha)
    frame := fun hf => by rw [hl] at hf; simp at hf
    active := by
      intro s' hs' ha
      rw [hslots] at hs'
      obtain ⟨s, hs, rfl⟩ := mem_committed.1 hs'
      have hport := s.committed_same.2.2.2.1
      by_cases ha₀ : OnActive w.db s
      · exact .inl ⟨s, hs, hport.symm, ha₀⟩
      · rcases hsync with h1 | hall
        · refine .inr ⟨h1, ?_, s, hs, hport.symm, ha₀⟩
          -- a slot of an inactive shard is free
          have hfree := h.inactive s hs ha₀
          rw [hset, (inv_committed h).mem_blockedSet hs']
          intro ho
          have hst := ho.1
          rw [committed_assigned h hs hst, hfree] at hst
          simp at hst
        · exact absurd (hall s hs) ha₀
    unnamed := fun _ => hcalls
    inactive := by
      intro _ s' hs' hna
      rw [hslots] at hs'
      exact absurd ((hact s').2 (onActive_committed h hs')) hna
    files := by
      intro hok
      have := filesOk_committed h hok hw
      rw [hcopy]
      exact this
    secrets := SecretStep.of_slots hslots (SecretStep.committed h)
    links := by
      intro d hd
      have := KeepsLink.committed h hd
      rw [hcopy]
      exact .inr this }

end CommitOk

end WebProxyPanel
