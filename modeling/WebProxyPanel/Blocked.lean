import WebProxyPanel.Pool
/-!
# What the blocked-ports query returns

`BLOCKED_PORTS_SQL` is run by the pool and by wppctl (pool.py:24-33, ctl.py:40-48). A slot is *open*
when it is assigned, on an active shard, and its device's user is enabled; every other port must be
in the firewall's set. Every join of the query is along a `UNIQUE` column or a foreign key, so each
slot stays one row, and the `WHERE` clause is judged slot by slot.
-/

namespace WebProxyPanel
open Table

/-- The slot's shard is active. -/
def OnActive (db : DB) (s : Slot) : Prop := ∃ sh ∈ db.shards, sh.id = s.shardId ∧ sh.active = 1

/-- A device references the slot. -/
def Referenced (db : DB) (s : Slot) : Prop := ∃ d ∈ db.devices, d.slotId = s.id

/-- A device of an enabled user references the slot. -/
def HasEnabledUser (db : DB) (s : Slot) : Prop :=
  ∃ d ∈ db.devices, d.slotId = s.id ∧ ∃ u ∈ db.users, u.id = d.userId ∧ u.enabled = 1

/-- Assigned, on an active shard, to a device whose user is enabled. -/
def IsOpen (db : DB) (s : Slot) : Prop := s.status = .assigned ∧ OnActive db s ∧ HasEnabledUser db s

instance (db : DB) (s : Slot) : Decidable (OnActive db s) := by unfold OnActive; infer_instance
instance (db : DB) (s : Slot) : Decidable (Referenced db s) := by unfold Referenced; infer_instance
instance (db : DB) (s : Slot) : Decidable (HasEnabledUser db s) :=
  by unfold HasEnabledUser; infer_instance
instance (db : DB) (s : Slot) : Decidable (IsOpen db s) := by unfold IsOpen; infer_instance

/-- What the comment on the query asks of it: the ports of all slots that are not open, once each,
in increasing order. -/
def FailsClosed (db : DB) (ports : List Int) : Prop :=
  ports.Pairwise (· < ·) ∧ ∀ p, p ∈ ports ↔ ∃ s ∈ db.slots, s.port = p ∧ ¬ IsOpen db s

/-! ## The joins -/

/-- The row of the joins that belongs to a slot. -/
def joinedRow (db : DB) (s : Slot) (sh : Shard) : ((Slot × Shard) × Option Device) × Option User :=
  let d := (db.devices.filter fun d => d.slotId = s.id).head?
  (((s, sh), d), (db.users.filter fun u => eq3 (d.map (·.userId)) u.id = some true).head?)

/-- `slots.shard_id` is a foreign key: one shard for each slot. -/
theorem slotsWithShard_eq {db : DB} (h : db.Consistent) :
    ∃ shard : Slot → Shard, (∀ s ∈ db.slots, shard s ∈ db.shards ∧ (shard s).id = s.shardId) ∧
      slotsWithShard db = db.slots.map fun s => (s, shard s) := by
  have hex : ∀ s : Slot, ∃ sh : Shard, s ∈ db.slots → sh ∈ db.shards ∧ sh.id = s.shardId := by
    intro s
    by_cases hs : s ∈ db.slots
    · obtain ⟨sh, hsh, hid⟩ := List.mem_map.1 (h.slotShard s hs)
      exact ⟨sh, fun _ => ⟨hsh, hid⟩⟩
    · exact ⟨⟨0, 0, 0, 0⟩, fun hs' => absurd hs' hs⟩
  choose shard hshard using hex
  refine ⟨shard, hshard, ?_⟩
  refine innerJoin_eq_map fun s hs => ?_
  obtain ⟨hm, hid⟩ := hshard s hs
  rw [← hid]
  exact filter_key_eq h.shardId hm

theorem filter_eq3 (users : List User) (i : Int) :
    (users.filter fun u => decide (eq3 (some i) u.id = some true)) = users.filter fun u =>
      decide (u.id = i) := by
  refine List.filter_congr fun u _ => ?_
  rw [decide_eq_decide, eq3_some_eq_true]
  exact eq_comm

/-- A user's id is a primary key, so at most one user answers to a device's `user_id`. -/
theorem users_filter_length {db : DB} (h : db.Consistent) (o : Option Int) :
    (db.users.filter fun u => eq3 o u.id = some true).length ≤ 1 := by
  cases o with
  | none => simp
  | some i =>
    rw [filter_eq3]
    exact filter_key_length h.userId i

theorem blockedJoin_eq {db : DB} (h : db.Consistent) :
    ∃ shard : Slot → Shard, (∀ s ∈ db.slots, shard s ∈ db.shards ∧ (shard s).id = s.shardId) ∧
      blockedJoin db = db.slots.map fun s => joinedRow db s (shard s) := by
  obtain ⟨shard, hshard, heq⟩ := slotsWithShard_eq h
  refine ⟨shard, hshard, ?_⟩
  unfold blockedJoin
  rw [heq, leftJoin_eq_map, leftJoin_eq_map]
  · simp [joinedRow, Function.comp_def]
  · intro x _
    exact filter_key_length h.deviceSlot _
  · intro x _
    exact users_filter_length h _

/-- The condition of the query, decided for a slot: an assigned slot of an active shard that no
device references makes it unknown. -/
theorem blockedCond_joinedRow {db : DB} (h : db.Consistent) {s : Slot} {sh : Shard}
    (hsh : sh ∈ db.shards) (hid : sh.id = s.shardId) :
    blockedCond (joinedRow db s sh) = some true ↔ ¬ IsOpen db s ∧
      (s.status = .assigned → OnActive db s →
      Referenced db s) := by
  have hact : OnActive db s ↔ sh.active = 1 := by
    constructor
    · rintro ⟨sh', hm, hid', ha⟩
      rw [← eq_of_key h.shardId hm hsh (by rw [hid', hid])]
      exact ha
    · exact fun ha => ⟨sh, hsh, hid, ha⟩
  simp only [blockedCond, joinedRow, not3_eq_true, and3_eq_false, eq3_some_eq_false, IsOpen, hact]
  cases hd : (db.devices.filter fun d => decide (d.slotId = s.id)).head? with
  | none =>
    have hno : ¬ Referenced db s := by
      rintro ⟨d, hm, hds⟩
      have := List.filter_eq_nil_iff.1 (List.head?_eq_none_iff.1 hd) d hm
      simp [hds] at this
    have hno' : ¬ HasEnabledUser db s := by
      rintro ⟨d, hm, hds, -⟩
      exact hno ⟨d, hm, hds⟩
    simp only [Option.map_none, eq3_none, reduceCtorEq, decide_false, List.filter_false,
      List.head?_nil, hno, hno']
    tauto
  | some d =>
    obtain ⟨hm, hds⟩ : d ∈ db.devices ∧ d.slotId = s.id := by
      have := List.mem_of_mem_head? hd
      simpa using this
    obtain ⟨u, hu, huid⟩ := List.mem_map.1 (h.deviceUser d hm)
    have hf : (db.users.filter fun u => decide (eq3 (some d.userId) u.id = some true)) = [u] := by
      rw [filter_eq3, ← huid]
      exact filter_key_eq h.userId hu
    have hen : HasEnabledUser db s ↔ u.enabled = 1 := by
      constructor
      · rintro ⟨d', hm', hds', u', hu', hid', he⟩
        have hdd : d' = d := eq_of_key h.deviceSlot hm' hm (by rw [hds', hds])
        have huu : u' = u := eq_of_key h.userId hu' hu (by rw [hid', hdd, huid])
        rw [← huu]
        exact he
      · exact fun he => ⟨d, hm, hds, u, hu, huid, he⟩
    have href : Referenced db s := ⟨d, hm, hds⟩
    simp only [Option.map_some, hf, List.head?_cons, eq3_some_eq_false, hen, href]
    tauto

/-! ## The result -/

/-- The ports the query returns, as a set. -/
theorem mem_blockedPorts {db : DB} (h : db.Consistent) {p : Int} :
    p ∈ blockedPorts db ↔ ∃ s ∈ db.slots, s.port = p ∧ ¬ IsOpen db s ∧
      (s.status = .assigned → OnActive db s → Referenced db s) := by
  obtain ⟨shard, hshard, heq⟩ := blockedJoin_eq h
  simp only [blockedPorts, heq, List.mem_map, mem_orderBy, mem_where3]
  constructor
  · rintro ⟨_, ⟨⟨s, hs, rfl⟩, hc⟩, rfl⟩
    exact ⟨s, hs, rfl, (blockedCond_joinedRow h (hshard s hs).1 (hshard s hs).2).1 hc⟩
  · rintro ⟨s, hs, rfl, hc⟩
    exact ⟨_, ⟨⟨s, hs, rfl⟩, (blockedCond_joinedRow h (hshard s hs).1 (hshard s hs).2).2 hc⟩, rfl⟩

/-- Ports are unique, so sorting them leaves no two neighbours equal. -/
theorem blockedPorts_pairwise {db : DB} (h : db.Consistent) :
    (blockedPorts db).Pairwise (· < ·) := by
  obtain ⟨shard, -, heq⟩ := blockedJoin_eq h
  have hle : (blockedPorts db).Pairwise (· ≤ ·) :=
    List.Pairwise.map _ (fun _ _ hab => hab) (orderBy_pairwise _ _)
  have hnd : (blockedPorts db).Nodup := by
    refine ((orderBy_perm _ _).map _).nodup_iff.2 ?_
    have hsub : ((where3 blockedCond (blockedJoin db)).map (·.1.1.1.port)).Sublist
        ((blockedJoin db).map (·.1.1.1.port)) := List.filter_sublist.map _
    refine List.Nodup.sublist hsub ?_
    rw [heq, List.map_map]
    exact h.slotPort
  have := hle.and hnd
  exact this.imp fun hab => lt_of_le_of_ne hab.1 hab.2

/-- The query fails closed on exactly the databases where every assigned slot of an active shard is
referenced by a device; the port of a slot without one is left out of the blocked set. -/
theorem blockedPorts_failsClosed_iff (db : DB) (h : db.Consistent) :
    FailsClosed db (blockedPorts db) ↔
      ∀ s ∈ db.slots, s.status = .assigned → OnActive db s → Referenced db s := by
  constructor
  · rintro ⟨-, hmem⟩ s hs hst hact
    by_contra href
    have hopen : ¬ IsOpen db s := fun ⟨_, _, d, hd, hds, _⟩ => href ⟨d, hd, hds⟩
    obtain ⟨s', hs', hport, -, href'⟩ :=
      (mem_blockedPorts h).1 ((hmem s.port).2 ⟨s, hs, rfl, hopen⟩)
    rw [eq_of_key h.slotPort hs' hs hport] at href'
    exact href (href' hst hact)
  · intro href
    refine ⟨blockedPorts_pairwise h, fun p => ?_⟩
    rw [mem_blockedPorts h]
    constructor
    · rintro ⟨s, hs, hp, hopen, -⟩
      exact ⟨s, hs, hp, hopen⟩
    · rintro ⟨s, hs, hp, hopen⟩
      exact ⟨s, hs, hp, hopen, href s hs⟩

def plainUser (id enabled : Int) (reason : Option Reason) : User where
  id := id
  name := "user"
  tgId := none
  tgUsername := none
  tgBotStarted := 0
  tgBlockedBot := 0
  maxDevices := none
  enabled := enabled
  disabledReason := reason
  createdAt := 0
  createdBy := .panel
  expiresAt := none
  trafficLimitBytes := none
  trafficReset := .never
  periodStart := 0
  periodUp := 0
  periodDown := 0
  note := ""

/-- An active shard with the slots of two users, one of them disabled, a free and a dirty slot; an
inactive shard with a slot of the enabled user. -/
def twoShards : DB where
  shards := [⟨0, 19000, 0, 1⟩, ⟨1, 19001, 0, 0⟩]
  slots := [⟨1, 0, 0, 20000, "a", none, .assigned, some 1⟩,
    ⟨2, 0, 1, 20001, "b", none, .assigned, some 2⟩,
    ⟨3, 0, 2, 20002, "c", none, .free, none⟩, ⟨4, 0, 3, 20003, "d", none, .dirty, none⟩,
    ⟨5, 1, 0, 20016, "e", none, .assigned, some 3⟩]
  users := [plainUser 1 1 none, plainUser 2 0 (some .manual)]
  devices := [⟨1, 1, "phone", 1, 0, .panel⟩, ⟨2, 2, "phone", 2, 0, .panel⟩,
    ⟨3, 1, "laptop", 5, 0, .panel⟩]
  events := []
  settings := []

/-- All ports are closed but that of the enabled user on the active shard. -/
theorem blockedPorts_failsClosed_twoShards :
    twoShards.Consistent ∧ FailsClosed twoShards (blockedPorts twoShards) ∧
    blockedPorts twoShards = [20001, 20002, 20003, 20016] := by
  have hconsistent : twoShards.Consistent := by decide
  exact ⟨hconsistent, (blockedPorts_failsClosed_iff twoShards hconsistent).2 (by decide), by decide⟩

/-- One active shard, one slot marked assigned, no device. -/
def orphanSlot : DB :=
  { DB.empty with
    shards := [⟨0, 19000, 0, 1⟩]
    slots := [⟨1, 0, 0, 20000, "a", none, .assigned, none⟩] }

/-- The schema admits `orphanSlot`, and the query leaves its closed port out. -/
theorem orphanSlot_not_failsClosed : orphanSlot.Consistent ∧
    ¬ (FailsClosed orphanSlot (blockedPorts orphanSlot)) ∧ 20000 ∉ blockedPorts orphanSlot := by
  refine ⟨by decide, fun ⟨_, hmem⟩ => ?_, by decide⟩
  have : (20000 : Int) ∈ blockedPorts orphanSlot := (hmem 20000).2 (by decide)
  revert this
  decide

end WebProxyPanel
