import WebProxyPanel.System
import WebProxyPanel.Blocked
/-!
# The invariant of a committed database

* `Layout` — shards 0..n-1, the active ones first, 16 slots each with the ports of `slot_port`.
* `Linked` — `slots.status`, `slots.device_id` and `devices.slot_id` say the same thing.
* `Inv` — both, with what staging may touch: a pending secret only on a dirty slot, a free slot on
  every inactive shard, no secret twice in the two secret columns together.

`PoolFrame` says what a user operation may do to the pool: nothing to shards, identities, ports and
secrets; a slot of an active shard may go from free to assigned, and to dirty. `FwStep` says that
some firewall calls turn the blocked set of one database into that of another.
-/

namespace WebProxyPanel
open Table

/-! ## Definitions -/

structure Layout (db : DB) : Prop where
  shardIds : db.shards.map (·.id) = (List.range db.shards.length).map fun n : Nat => (n : Int)
  limit : (db.shards.length : Int) ≤ maxShards
  stats : ∀ sh ∈ db.shards, sh.statsPort = statsPort sh.id
  activeBit : ∀ sh ∈ db.shards, sh.active = 0 ∨ sh.active = 1
  activeFirst : ∀ sh ∈ db.shards, ∀ sh' ∈ db.shards, sh.id ≤ sh'.id → sh'.active = 1 → sh.active = 1
  slots : db.slots.map (fun s => (s.shardId, s.idx)) =
    db.shards.flatMap fun sh => (List.range shardSize).map fun i : Nat => (sh.id, (i : Int))
  ports : ∀ s ∈ db.slots, s.port = slotPort s.shardId s.idx

structure Linked (db : DB) : Prop where
  assigned : ∀ s ∈ db.slots, s.status = .assigned → ∃ d ∈ db.devices, d.slotId = s.id ∧
    s.deviceId = some d.id
  unassigned : ∀ s ∈ db.slots, s.status ≠ .assigned → s.deviceId = none
  device : ∀ d ∈ db.devices, ∃ s ∈ db.slots, s.id = d.slotId ∧ s.status = .assigned

/-- Both secret columns. -/
def allSecrets (db : DB) : List String :=
  db.slots.map (·.secret) ++ db.slots.filterMap (·.pendingSecret)

structure Inv (db : DB) : Prop where
  consistent : db.Consistent
  layout : Layout db
  linked : Linked db
  secrets : (allSecrets db).Nodup
  tokens : ∀ v ∈ allSecrets db, isTokenHex v = true
  pending : ∀ s ∈ db.slots, s.pendingSecret ≠ none → s.status = .dirty
  inactive : ∀ s ∈ db.slots, ¬ OnActive db s → s.status = .free
  enabledBit : ∀ u ∈ db.users, u.enabled = 0 ∨ u.enabled = 1

/-- All of a slot but its status and its device. -/
def Slot.core (s : Slot) : Slot := { s with status := .free, deviceId := none }

def SlotProgress (db : DB) (s s' : Slot) : Prop :=
  s'.core = s.core ∧
    (s' = s ∨ OnActive db s ∧ (s.status = .free ∧ s'.status = .assigned ∨ s'.status = .dirty))

structure PoolFrame (db db' : DB) : Prop where
  shards : db'.shards = db.shards
  slots : List.Forall₂ (SlotProgress db) db.slots db'.slots

/-- The ports the query returns, as a set. -/
def blockedSet (db : DB) : Finset Int := (blockedPorts db).toFinset

/-- The calls, made on the blocked set of `db`, leave that of `db'` on the slots of active shards.
-/
def FwStep (db : DB) (calls : List FwCall) (db' : DB) : Prop :=
  ∀ s ∈ db'.slots, OnActive db' s →
    (s.port ∈ runCalls calls (blockedSet db) ↔ s.port ∈ blockedSet db')

/-- A device is still there, on the same slot. -/
def KeepsSlot (db' : DB) (d : Device) : Prop :=
  ∃ d' ∈ db'.devices, d'.id = d.id ∧ d'.userId = d.userId ∧ d'.slotId = d.slotId

/-- What a transaction of a user operation with these firewall calls does to the committed database;
`moves` are the devices, by id and user, whose slot it may take away. -/
structure UserStep (moves : Int → Int → Prop) (db : DB) (calls : List FwCall) (db' : DB) :
    Prop where
  inv : Inv db'
  frame : PoolFrame db db'
  fw : FwStep db calls db'
  links : ∀ d ∈ db.devices, moves d.id d.userId ∨ KeepsSlot db' d

/-! ## Columns that a user operation cannot change -/

theorem map_of_cores {κ : Type} {g : Slot → κ} (hg : ∀ s : Slot, g s.core = g s) {xs ys : List Slot}
    (h : xs.map Slot.core = ys.map Slot.core) : xs.map g = ys.map g := by
  have := congrArg (List.map g) h
  simpa [Function.comp_def, hg] using this

theorem filterMap_of_cores {κ : Type} {g : Slot → Option κ} (hg : ∀ s : Slot, g s.core = g s)
    {xs ys : List Slot} (h : xs.map Slot.core = ys.map Slot.core) :
    xs.filterMap g = ys.filterMap g := by
  have := congrArg (List.filterMap g) h
  simpa [List.filterMap_map, Function.comp_def, hg] using this

/-- Every core on one side is a core on the other. -/
theorem exists_core {xs ys : List Slot} (h : xs.map Slot.core = ys.map Slot.core) {s : Slot}
    (hs : s ∈ xs) : ∃ s' ∈ ys, s'.core = s.core := by
  have : s.core ∈ ys.map Slot.core := by
    rw [← h]
    exact List.mem_map_of_mem hs
  simpa using this

theorem core_eq_iff {s s' : Slot} :
    s'.core = s.core ↔ s'.id = s.id ∧ s'.shardId = s.shardId ∧ s'.idx = s.idx ∧
    s'.port = s.port ∧ s'.secret = s.secret ∧ s'.pendingSecret = s.pendingSecret := by
  simp [Slot.core]

theorem onActive_congr {db db' : DB} {s s' : Slot} (hsh : db'.shards = db.shards)
    (hid : s'.shardId = s.shardId) : OnActive db' s' ↔ OnActive db s := by
  simp only [OnActive, hsh, hid]

namespace PoolFrame
variable {db db' db'' : DB}

theorem refl (db : DB) : PoolFrame db db where
  shards := rfl
  slots := List.forall₂_same.2 fun _ _ => ⟨rfl, .inl rfl⟩

theorem cores (h : PoolFrame db db') : db'.slots.map Slot.core = db.slots.map Slot.core := by
  have aux : ∀ {xs ys : List Slot}, List.Forall₂ (SlotProgress db) xs ys →
      ys.map Slot.core = xs.map Slot.core := by
    intro xs ys hxy
    induction hxy with
    | nil => rfl
    | cons hx _ ih => rw [List.map_cons, List.map_cons, hx.1, ih]
  exact aux h.slots

theorem before (h : PoolFrame db db') {s' : Slot} (hs : s' ∈ db'.slots) :
    ∃ s ∈ db.slots, SlotProgress db s s' := by
  obtain ⟨i, hi, rfl⟩ := List.mem_iff_getElem.1 hs
  have hl := h.slots.length_eq
  exact ⟨db.slots[i], List.getElem_mem _, h.slots.get (by omega) hi⟩

theorem after (h : PoolFrame db db') {s : Slot} (hs : s ∈ db.slots) :
    ∃ s' ∈ db'.slots, SlotProgress db s s' := by
  obtain ⟨i, hi, rfl⟩ := List.mem_iff_getElem.1 hs
  have hl := h.slots.length_eq
  exact ⟨db'.slots[i], List.getElem_mem _, h.slots.get hi (by omega)⟩

theorem onActive (h : PoolFrame db db') {s s' : Slot} (hs : SlotProgress db s s') :
    OnActive db' s' ↔ OnActive db s :=
  onActive_congr h.shards (core_eq_iff.1 hs.1).2.1

end PoolFrame

theorem SlotProgress.trans {db db' : DB} (hsh : db'.shards = db.shards) {s s' s'' : Slot}
    (h : SlotProgress db s s') (h' : SlotProgress db' s' s'') : SlotProgress db s s'' := by
  refine ⟨h'.1.trans h.1, ?_⟩
  have hact : OnActive db' s' ↔ OnActive db s := onActive_congr hsh (core_eq_iff.1 h.1).2.1
  rcases h'.2 with rfl | ⟨ha', hst' | hst'⟩
  · exact h.2
  · rcases h.2 with rfl | ⟨_, hst | hst⟩
    · exact .inr ⟨hact.1 ha', .inl hst'⟩
    · rw [hst'.1] at hst; simp at hst
    · rw [hst'.1] at hst; simp at hst
  · exact .inr ⟨hact.1 ha', .inr hst'⟩

theorem PoolFrame.trans {db db' db'' : DB} (h : PoolFrame db db') (h' : PoolFrame db' db'') :
    PoolFrame db db'' where
  shards := h'.shards.trans h.shards
  slots := by
    have hl := h.slots.length_eq
    have hl' := h'.slots.length_eq
    refine List.forall₂_iff_get.2 ⟨by omega, fun i hi hi' => ?_⟩
    exact SlotProgress.trans h.shards (h.slots.get hi (by omega)) (h'.slots.get (by omega) hi')

/-! ## Constraints, one table at a time -/

namespace DB.Consistent
variable {db : DB}

theorem setSlots (h : db.Consistent) {xs : List Slot}
    (hx : xs.map Slot.core = db.slots.map Slot.core) : { db with slots := xs }.Consistent := by
  have hm : ∀ {κ : Type} (g : Slot → κ), (∀ s : Slot, g s.core = g s) → xs.map g = db.slots.map g :=
    fun g hg => map_of_cores hg hx
  exact {
    h with
    slotId := by rw [hm (·.id) fun _ => rfl]; exact h.slotId
    slotPort := by rw [hm (·.port) fun _ => rfl]; exact h.slotPort
    slotSecret := by rw [hm (·.secret) fun _ => rfl]; exact h.slotSecret
    slotPending := by
      rw [filterMap_of_cores (g := fun s : Slot => s.pendingSecret) (fun _ => rfl) hx];
        exact h.slotPending
    slotIdx := by rw [hm (fun s => (s.shardId, s.idx)) fun _ => rfl]; exact h.slotIdx
    slotShard := by
      intro s hs
      obtain ⟨s', hs', hc⟩ := exists_core hx hs
      rw [← (core_eq_iff.1 hc).2.1]
      exact h.slotShard s' hs'
    deviceSlotRef := by
      intro d hd
      rw [hm (·.id) fun _ => rfl]
      exact h.deviceSlotRef d hd }

theorem setUsers (h : db.Consistent) {us : List User} (hid : (us.map (·.id)).Nodup)
    (htg : (us.filterMap (·.tgId)).Nodup) (href : ∀ d ∈ db.devices, d.userId ∈ us.map (·.id)) :
    { db with users := us }.Consistent :=
  { h with userId := hid, userTg := htg, deviceUser := href }

theorem setDevices (h : db.Consistent) {ds : List Device} (hid : (ds.map (·.id)).Nodup)
    (hslot : (ds.map (·.slotId)).Nodup) (hu : ∀ d ∈ ds, d.userId ∈ db.users.map (·.id))
    (hs : ∀ d ∈ ds, d.slotId ∈ db.slots.map (·.id)) : { db with devices := ds }.Consistent :=
  { h with deviceId := hid, deviceSlot := hslot, deviceUser := hu, deviceSlotRef := hs }

theorem addEvent (h : db.Consistent) (ts : Int) (kind : String) (userId : Option Int)
    (details : String) : (DB.addEvent ts kind userId details db).Consistent :=
  { h with
    eventId := by
      simp only [DB.addEvent, List.map_append, List.map_cons, List.map_nil]
      exact nodup_append_nextRowid h.eventId }

end DB.Consistent

/-! ## The invariant through a user operation -/

/-- A user operation has only the links and the users' flags to answer for. -/
theorem Inv.frame {db db' : DB} (h : Inv db) (hf : PoolFrame db db') (hc : db'.Consistent)
    (hl : Linked db') (hu : ∀ u ∈ db'.users, u.enabled = 0 ∨ u.enabled = 1) : Inv db' where
  consistent := hc
  layout :=
    { shardIds := by rw [hf.shards]; exact h.layout.shardIds
      limit := by rw [hf.shards]; exact h.layout.limit
      stats := by rw [hf.shards]; exact h.layout.stats
      activeBit := by rw [hf.shards]; exact h.layout.activeBit
      activeFirst := by rw [hf.shards]; exact h.layout.activeFirst
      slots := by
        rw [hf.shards, ← h.layout.slots]
        exact map_of_cores (fun _ => rfl) hf.cores
      ports := by
        intro s' hs'
        obtain ⟨s, hs, hp⟩ := hf.before hs'
        obtain ⟨-, h2, h3, h4, -⟩ := core_eq_iff.1 hp.1
        rw [h2, h3, h4]
        exact h.layout.ports s hs }
  linked := hl
  secrets := by
    unfold allSecrets
    rw [map_of_cores (g := fun s : Slot => s.secret) (fun _ => rfl) hf.cores,
      filterMap_of_cores (g := fun s : Slot => s.pendingSecret) (fun _ => rfl) hf.cores]
    exact h.secrets
  tokens := by
    unfold allSecrets
    rw [map_of_cores (g := fun s : Slot => s.secret) (fun _ => rfl) hf.cores,
      filterMap_of_cores (g := fun s : Slot => s.pendingSecret) (fun _ => rfl) hf.cores]
    exact h.tokens
  pending := by
    intro s' hs' hp'
    obtain ⟨s, hs, hp⟩ := hf.before hs'
    have hd : s.status = .dirty :=
      h.pending s hs (by rw [← (core_eq_iff.1 hp.1).2.2.2.2.2]; exact hp')
    rcases hp.2 with rfl | ⟨_, ⟨hfree, _⟩ | hst⟩
    · exact hd
    · rw [hfree] at hd; simp at hd
    · exact hst
  inactive := by
    intro s' hs' ha
    obtain ⟨s, hs, hp⟩ := hf.before hs'
    rw [hf.onActive hp] at ha
    rcases hp.2 with rfl | ⟨hact, _⟩
    · exact h.inactive s' hs ha
    · exact absurd hact ha
  enabledBit := hu

/-- Every assigned slot has its device. -/
theorem Inv.referenced {db : DB} (h : Inv db) {s : Slot} (hs : s ∈ db.slots)
    (hst : s.status = .assigned) : Referenced db s := by
  obtain ⟨d, hd, hds, -⟩ := h.linked.assigned s hs hst
  exact ⟨d, hd, hds⟩

theorem Inv.mem_blockedPorts {db : DB} (h : Inv db) {s : Slot} (hs : s ∈ db.slots) :
    s.port ∈ blockedPorts db ↔ ¬ IsOpen db s := by
  rw [WebProxyPanel.mem_blockedPorts h.consistent]
  constructor
  · rintro ⟨s', hs', hp, ho, -⟩
    rw [eq_of_key h.consistent.slotPort hs' hs hp] at ho
    exact ho
  · exact fun ho => ⟨s, hs, rfl, ho, fun hst _ => h.referenced hs hst⟩

theorem Inv.mem_blockedSet {db : DB} (h : Inv db) {s : Slot} (hs : s ∈ db.slots) :
    s.port ∈ blockedSet db ↔ ¬ IsOpen db s := by
  rw [blockedSet, List.mem_toFinset]
  exact h.mem_blockedPorts hs

/-! ## Firewall calls -/

theorem FwCall.mem_run {c : FwCall} {f : Finset Int} {p : Int} :
    p ∈ c.run f ↔ match c with
      | .block ps => p ∈ f ∨ p ∈ ps
      | .unblock ps => p ∈ f ∧ p ∉ ps := by
  cases c <;> simp [FwCall.run]

@[simp] theorem runCalls_nil (f : Finset Int) : runCalls [] f = f := rfl
@[simp] theorem runCalls_cons (c : FwCall) (cs : List FwCall) (f : Finset Int) :
    runCalls (c :: cs) f = runCalls cs (c.run f) := rfl
theorem runCalls_append (cs ds : List FwCall) (f : Finset Int) :
    runCalls (cs ++ ds) f = runCalls ds (runCalls cs f) := List.foldl_append

/-- Whether a port ends up blocked depends on nothing but whether it was. -/
theorem mem_runCalls_congr {p : Int} : ∀ {cs : List FwCall} {f g : Finset Int}, (p ∈ f ↔ p ∈ g) →
    (p ∈ runCalls cs f ↔ p ∈ runCalls cs g)
  | [], _, _, h => h
  | c :: cs, f, g, h => by
    rw [runCalls_cons, runCalls_cons]
    refine mem_runCalls_congr ?_
    rw [FwCall.mem_run, FwCall.mem_run]
    cases c <;> simp only [h]

/-- A port that no call names stays as it is. -/
theorem mem_runCalls_of_notMem {p : Int} :
    ∀ {cs : List FwCall} {f : Finset Int}, p ∉ cs.flatMap FwCall.ports →
    (p ∈ runCalls cs f ↔ p ∈ f)
  | [], _, _ => Iff.rfl
  | c :: cs, f, h => by
    rw [List.flatMap_cons, List.mem_append, not_or] at h
    rw [runCalls_cons, mem_runCalls_of_notMem h.2, FwCall.mem_run]
    have h1 := h.1
    cases c <;> simp_all [FwCall.ports]

/-- A port that some call names ends up as the last of them says. -/
theorem mem_runCalls_of_mem {p : Int} :
    ∀ {cs : List FwCall} {f g : Finset Int}, p ∈ cs.flatMap FwCall.ports →
    (p ∈ runCalls cs f ↔ p ∈ runCalls cs g)
  | [], _, _, h => by simp at h
  | c :: cs, f, g, h => by
    rw [runCalls_cons, runCalls_cons]
    by_cases hc : p ∈ c.ports
    · refine mem_runCalls_congr ?_
      rw [FwCall.mem_run, FwCall.mem_run]
      cases c <;> simp_all [FwCall.ports]
    · rw [List.flatMap_cons, List.mem_append] at h
      exact mem_runCalls_of_mem (h.resolve_left hc)

theorem FwStep.refl (db : DB) : FwStep db [] db := fun _ _ _ => Iff.rfl

theorem FwStep.trans {db db' db'' : DB} {cs cs' : List FwCall} (hf : PoolFrame db' db'')
    (h : FwStep db cs db') (h' : FwStep db' cs' db'') : FwStep db (cs ++ cs') db'' := by
  intro s'' hs'' hact
  obtain ⟨s', hs', hp⟩ := hf.before hs''
  have hport : s''.port = s'.port := (core_eq_iff.1 hp.1).2.2.2.1
  rw [runCalls_append, ← h' s'' hs'' hact]
  refine mem_runCalls_congr ?_
  rw [hport]
  exact h s' hs' ((hf.onActive hp).1 hact)

@[simp] theorem mem_sortedSet {ports : List Int} {p : Int} : p ∈ sortedSet ports ↔ p ∈ ports := by
  simp [sortedSet, mem_orderBy]

/-- The calls that `System.block` makes. -/
def blockCalls (ports : List Int) : List FwCall :=
  if sortedSet ports = [] then [] else [.block (sortedSet ports)]

/-- The calls that `System.unblock` makes. -/
def unblockCalls (ports : List Int) : List FwCall :=
  if sortedSet ports = [] then [] else [.unblock (sortedSet ports)]

theorem sortedSet_eq_nil {ports : List Int} : sortedSet ports = [] ↔ ports = [] := by
  constructor
  · intro h
    refine List.eq_nil_iff_forall_not_mem.2 fun p hp => ?_
    rw [← mem_sortedSet, h] at hp
    simp at hp
  · rintro rfl
    rfl

@[simp] theorem blockCalls_nil : blockCalls [] = [] := rfl
@[simp] theorem unblockCalls_nil : unblockCalls [] = [] := rfl

theorem mem_runCalls_blockCalls {ports : List Int} {f : Finset Int} {p : Int} :
    p ∈ runCalls (blockCalls ports) f ↔ p ∈ f ∨ p ∈ ports := by
  unfold blockCalls
  split
  · rename_i h
    simp [sortedSet_eq_nil.1 h]
  · simp [FwCall.mem_run]

theorem mem_runCalls_unblockCalls {ports : List Int} {f : Finset Int} {p : Int} :
    p ∈ runCalls (unblockCalls ports) f ↔ p ∈ f ∧ p ∉ ports := by
  unfold unblockCalls
  split
  · rename_i h
    simp [sortedSet_eq_nil.1 h]
  · simp [FwCall.mem_run]

/-- Blocking `b` and then unblocking `u` is right for a step that opens the slots of `u`, closes
those of `b`, and leaves the others. -/
theorem FwStep.of_ports {db db' : DB} {b u : List Int} (h : Inv db) (h' : Inv db')
    (hf : PoolFrame db db')
    (hu : ∀ s ∈ db.slots, ∀ s' ∈ db'.slots, SlotProgress db s s' → s.port ∈ u → IsOpen db' s')
    (hb : ∀ s ∈ db.slots, ∀ s' ∈ db'.slots, SlotProgress db s s' → s.port ∉ u → s.port ∈ b →
      ¬ IsOpen db' s')
    (hk : ∀ s ∈ db.slots, ∀ s' ∈ db'.slots, SlotProgress db s s' → s.port ∉ u → s.port ∉ b →
      (IsOpen db' s' ↔ IsOpen db s)) :
    FwStep db (blockCalls b ++ unblockCalls u) db' := by
  intro s' hs' _
  obtain ⟨s, hs, hp⟩ := hf.before hs'
  have hport : s'.port = s.port := (core_eq_iff.1 hp.1).2.2.2.1
  rw [runCalls_append, mem_runCalls_unblockCalls, mem_runCalls_blockCalls,
    h'.mem_blockedSet hs', hport, h.mem_blockedSet hs]
  by_cases hmu : s.port ∈ u
  · simp [hmu, hu s hs s' hs' hp hmu]
  · by_cases hmb : s.port ∈ b
    · simp [hmu, hmb, hb s hs s' hs' hp hmu hmb]
    · simp [hmu, hmb, hk s hs s' hs' hp hmu hmb]

/-- A step that opens and closes nothing needs no call. -/
theorem FwStep.of_same {db db' : DB} (h : Inv db) (h' : Inv db') (hf : PoolFrame db db')
    (hk : ∀ s ∈ db.slots, ∀ s' ∈ db'.slots, SlotProgress db s s' → (IsOpen db' s' ↔ IsOpen db s)) :
    FwStep db [] db' := by
  have := FwStep.of_ports (b := []) (u := []) h h' hf (by simp) (by simp)
    fun s hs s' hs' hp _ _ => hk s hs s' hs' hp
  simpa using this

theorem KeepsSlot.of_mem {db : DB} {d : Device} (hd : d ∈ db.devices) : KeepsSlot db d :=
  ⟨d, hd, rfl, rfl, rfl⟩

namespace UserStep
variable {moves : Int → Int → Prop} {db db' db'' : DB} {cs cs' : List FwCall}

theorem refl (h : Inv db) : UserStep moves db [] db where
  inv := h
  frame := .refl db
  fw := .refl db
  links _ hd := .inr (.of_mem hd)

theorem trans (h : UserStep moves db cs db') (h' : UserStep moves db' cs' db'') :
    UserStep moves db (cs ++ cs') db'' where
  inv := h'.inv
  frame := h.frame.trans h'.frame
  fw := FwStep.trans h'.frame h.fw h'.fw
  links := by
    intro d hd
    rcases h.links d hd with hm | ⟨d', hd', hid, hu, hs⟩
    · exact .inl hm
    · rcases h'.links d' hd' with hm | ⟨d'', hd'', hid', hu', hs'⟩
      · exact .inl (by rw [← hid, ← hu]; exact hm)
      · exact .inr ⟨d'', hd'', hid'.trans hid, hu'.trans hu, hs'.trans hs⟩

end UserStep

end WebProxyPanel
