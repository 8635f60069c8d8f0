import WebProxyPanel.Invariant
import WebProxyPanel.Users
/-!
# What the statements of user operations do to the invariant

Each operation of users.py is a composition of a few changes of rows: a user's row is added, changed
or removed; a device gets a clean slot, gives its slot back, or moves to a clean slot. For each of
them, the constraints hold after it and it is a `UserStep`.
-/

namespace WebProxyPanel
namespace Users
open Table

variable {db : DB} {M : Int → Int → Prop}

/-! ## Slots are found by id -/

/-- `UPDATE slots SET .. WHERE id = ?` of status and device. -/
def setSlot (id : Int) (st : Status) (device : Option Int) (db : DB) : DB :=
  DB.updateSlot id (fun s => { s with status := st, deviceId := device }) db

theorem setSlot_cores (id : Int) (st : Status) (device : Option Int) (db : DB) :
    (setSlot id st device db).slots.map Slot.core = db.slots.map Slot.core := by
  refine map_update Slot.core ?_ _
  intro s _
  rfl

theorem consistent_setSlot (h : db.Consistent) (id : Int) (st : Status) (device : Option Int) :
    (setSlot id st device db).Consistent :=
  DB.Consistent.setSlots h (setSlot_cores id st device db)

theorem mem_setSlot {id : Int} {st : Status} {device : Option Int} {s' : Slot} :
    s' ∈ (setSlot id st device db).slots ↔
      ∃ s ∈ db.slots, s' = if s.id = id then { s with status := st, deviceId := device } else
        s := by
  simp [setSlot, DB.updateSlot, mem_update, eq_comm]

/-! ## Journal -/

theorem inv_addEvent (h : Inv db) (ts : Int) (kind : String) (userId : Option Int)
    (details : String) : Inv (DB.addEvent ts kind userId details db) :=
  h.frame ⟨rfl, (PoolFrame.refl db).slots⟩ (h.consistent.addEvent ts kind userId details)
    ⟨h.linked.assigned, h.linked.unassigned, h.linked.device⟩ h.enabledBit

theorem userStep_addEvent (h : Inv db) (ts : Int) (kind : String) (userId : Option Int)
    (details : String) :
    UserStep M db [] (DB.addEvent ts kind userId details db) where
  inv := inv_addEvent h ts kind userId details
  frame := ⟨rfl, (PoolFrame.refl db).slots⟩
  fw := fun _ _ _ => Iff.rfl
  links _ hd := .inr (.of_mem hd)

/-! ## Users -/

theorem map_id_updateUser (db : DB) (id : Int) {f : User → User} (hid : ∀ u, (f u).id = u.id) :
    (updateUser id f db).users.map (·.id) = db.users.map (·.id) :=
  map_update (·.id) (fun u _ => hid u) _

theorem consistent_updateUser (h : db.Consistent) (id : Int) {f : User → User}
    (hid : ∀ u, (f u).id = u.id) (htg : ∀ u, (f u).tgId = u.tgId) :
    (updateUser id f db).Consistent := by
  refine h.setUsers ?_ ?_ ?_
  · have := map_id_updateUser db id hid
    simp only [updateUser] at this
    rw [this]
    exact h.userId
  · rw [filterMap_update (·.tgId) fun u _ => htg u]
    exact h.userTg
  · intro d hd
    have := map_id_updateUser db id hid
    simp only [updateUser] at this
    rw [this]
    exact h.deviceUser d hd

/-- The new Telegram id belongs to nobody else. -/
theorem consistent_updateTg (h : db.Consistent) (id : Int) {f : User → User} (tg : Option Int)
    (hid : ∀ u, (f u).id = u.id) (htg : ∀ u, (f u).tgId = tg)
    (hfree : tgIdTaken tg (some id) db = false) : (updateUser id f db).Consistent := by
  have hids := map_id_updateUser db id hid
  simp only [updateUser] at hids
  refine h.setUsers (by rw [hids]; exact h.userId) ?_ fun d hd => by
    rw [hids]; exact h.deviceUser d hd
  -- by induction over the rows: at most one row has this id, and no other row has the new value
  have hrows : ∀ us : List User, (us.map (·.id)).Nodup → (us.filterMap (·.tgId)).Nodup →
      (∀ u ∈ us, u.id ≠ id → ∀ t, tg = some t → u.tgId ≠ some t) →
      ((update (fun u => decide (u.id = id)) f us).filterMap (·.tgId)).Nodup ∧
        ∀ t ∈ (update (fun u => decide (u.id = id)) f us).filterMap (·.tgId),
          t ∈ us.filterMap (·.tgId) ∨ (tg = some t ∧ id ∈ us.map (·.id)) := by
    intro us
    induction us with
    | nil => intro _ _ _; simp [update]
    | cons u us ih =>
      intro hn ht ho
      simp only [List.map_cons, List.nodup_cons] at hn
      have ht' : (us.filterMap (·.tgId)).Nodup := by
        cases hu : u.tgId with
        | none => simpa [hu] using ht
        | some t => simp only [List.filterMap_cons, hu, List.nodup_cons] at ht; exact ht.2
      obtain ⟨ih1, ih2⟩ := ih hn.2 ht' fun x hx => ho x (by simp [hx])
      have hcons : update (fun u => decide (u.id = id)) f (u :: us) =
          (if u.id = id then f u else
            u) :: update (fun u => decide (u.id = id)) f us := by simp [update]
      rw [hcons]
      by_cases hu : u.id = id
      · -- this is the row: the rest is unchanged
        have hrest : update (fun u => decide (u.id = id)) f us = us := by
          refine update_eq_self fun x hx hxid => ?_
          simp only [decide_eq_true_eq] at hxid
          exact absurd (List.mem_map.2 ⟨x, hx, by rw [hxid, hu]⟩) hn.1
        rw [if_pos hu, hrest, List.filterMap_cons, htg u]
        cases htg' : tg with
        | none => exact ⟨ht', fun t ht => .inl (by
            cases hu' : u.tgId <;> simp_all)⟩
        | some t =>
          refine ⟨List.nodup_cons.2 ⟨?_, ht'⟩, ?_⟩
          · intro hm
            obtain ⟨x, hx, hxt⟩ := List.mem_filterMap.1 hm
            have hxid : x.id ≠ id := fun he => hn.1 (List.mem_map.2 ⟨x, hx, by rw [he, hu]⟩)
            exact ho x (by simp [hx]) hxid t htg' hxt
          · intro t' ht'
            rcases List.mem_cons.1 ht' with rfl | hm
            · exact .inr ⟨rfl, by simp [hu]⟩
            · left
              cases hu' : u.tgId <;> simp_all
      · rw [if_neg hu, List.filterMap_cons]
        cases hu' : u.tgId with
        | none =>
          refine ⟨ih1, fun t ht => ?_⟩
          rcases ih2 t ht with hm | ⟨h1, h2⟩
          · exact .inl (by simpa [hu'] using hm)
          · exact .inr ⟨h1, by simp [h2]⟩
        | some t =>
          simp only [List.filterMap_cons, hu', List.nodup_cons] at ht
          refine ⟨List.nodup_cons.2 ⟨fun hm => ?_, ih1⟩, fun t' ht' => ?_⟩
          · rcases ih2 t hm with hm' | ⟨h1, _⟩
            · exact ht.1 hm'
            · exact ho u (by simp) hu t h1 hu'
          · rcases List.mem_cons.1 ht' with rfl | hm
            · exact .inl (by simp [hu'])
            · rcases ih2 t' hm with hm' | ⟨h1, h2⟩
              · exact .inl (by simp [hu', hm'])
              · exact .inr ⟨h1, by simp [h2]⟩
  refine (hrows db.users h.userId h.userTg ?_).1
  rintro u hu hne t rfl hut
  simp only [tgIdTaken, List.any_eq_false] at hfree
  have := hfree u hu
  simp [hut, hne] at this

/-- A change of user rows that keeps every flag. -/
theorem userStep_users (h : Inv db) {us : List User} (hc : { db with users := us }.Consistent)
    (hbit : ∀ u ∈ us, u.enabled = 0 ∨ u.enabled = 1)
    (hu : ∀ d ∈ db.devices, (∃ u ∈ us, u.id = d.userId ∧ u.enabled = 1) ↔ ∃ u ∈ db.users,
      u.id = d.userId ∧ u.enabled = 1) :
    UserStep M db [] { db with users := us } := by
  have hf : PoolFrame db { db with users := us } := ⟨rfl, (PoolFrame.refl db).slots⟩
  have hi : Inv { db with users := us } :=
    h.frame hf hc ⟨h.linked.assigned, h.linked.unassigned, h.linked.device⟩ hbit
  refine ⟨hi, hf, FwStep.of_same h hi hf fun s hs s' hs' hp => ?_, fun _ hd => .inr (.of_mem hd)⟩
  -- rows of slots are untouched: the two rows with one id are one row
  have hss : s' = s := eq_of_key h.consistent.slotId hs' hs (core_eq_iff.1 hp.1).1
  rw [hss]
  unfold IsOpen HasEnabledUser
  constructor
  · rintro ⟨h1, h2, d, hd, hds, hx⟩
    exact ⟨h1, h2, d, hd, hds, (hu d hd).1 hx⟩
  · rintro ⟨h1, h2, d, hd, hds, hx⟩
    exact ⟨h1, h2, d, hd, hds, (hu d hd).2 hx⟩

/-- `UPDATE users` of columns other than the flag. -/
theorem userStep_updateUser (h : Inv db) {id : Int} {f : User → User} (hid : ∀ u, (f u).id = u.id)
    (hen : ∀ u, (f u).enabled = u.enabled) (hc : (updateUser id f db).Consistent) :
    UserStep M db [] (updateUser id f db) := by
  have hrow : ∀ u : User, (if u.id = id then f u else u).enabled = u.enabled ∧
      (if u.id = id then f u else u).id = u.id := by
    intro u
    split
    · exact ⟨hen u, hid u⟩
    · exact ⟨rfl, rfl⟩
  refine userStep_users h hc ?_ fun d _ => ?_
  · intro u' hu'
    obtain ⟨u, hu, rfl⟩ := mem_update.1 hu'
    simp only [decide_eq_true_eq] at *
    rw [(hrow u).1]
    exact h.enabledBit u hu
  · constructor
    · rintro ⟨u', hu', h1, h2⟩
      obtain ⟨u, hu, rfl⟩ := mem_update.1 hu'
      simp only [decide_eq_true_eq] at h1 h2
      exact ⟨u, hu, by rw [← (hrow u).2]; exact h1, by rw [← (hrow u).1]; exact h2⟩
    · rintro ⟨u, hu, h1, h2⟩
      refine ⟨_, mem_update.2 ⟨u, hu, rfl⟩, ?_, ?_⟩
      · simp only [decide_eq_true_eq]; rw [(hrow u).2]; exact h1
      · simp only [decide_eq_true_eq]; rw [(hrow u).1]; exact h2

theorem consistent_addUser (h : db.Consistent) {u : User}
    (hid : u.id = nextRowid (db.users.map (·.id))) (htg : tgIdTaken u.tgId none db = false) :
    (addUser u db).Consistent := by
  refine h.setUsers ?_ ?_ fun d hd => ?_
  · rw [List.map_append, List.map_cons, List.map_nil, hid]
    exact nodup_append_nextRowid h.userId
  · rw [List.filterMap_append]
    cases ht : u.tgId with
    | none => simpa [ht] using h.userTg
    | some t =>
      simp only [List.filterMap_cons, ht, List.filterMap_nil]
      refine List.nodup_append.2 ⟨h.userTg, by simp, fun a ha b hb => ?_⟩
      obtain ⟨x, hx, hxt⟩ := List.mem_filterMap.1 ha
      rw [List.mem_singleton.1 hb]
      rintro rfl
      simp only [tgIdTaken, ht, List.any_eq_false] at htg
      have := htg x hx
      simp [hxt] at this
  · rw [List.map_append]
    exact List.mem_append_left _ (h.deviceUser d hd)

/-- A new user has no device yet. -/
theorem userStep_addUser (h : Inv db) {u : User} (hid : u.id = nextRowid (db.users.map (·.id)))
    (htg : tgIdTaken u.tgId none db = false) (hen : u.enabled = 0 ∨ u.enabled = 1) :
    UserStep M db [] (addUser u db) := by
  refine userStep_users h (consistent_addUser h.consistent hid htg) ?_ fun d hd => ?_
  · intro x hx
    rcases List.mem_append.1 hx with hx | hx
    · exact h.enabledBit x hx
    · rw [List.mem_singleton.1 hx]
      exact hen
  · have hne : u.id ≠ d.userId := by
      rw [hid]
      exact fun he => nextRowid_notMem _ (he ▸ h.consistent.deviceUser d hd)
    constructor
    · rintro ⟨x, hx, h1, h2⟩
      rcases List.mem_append.1 hx with hx | hx
      · exact ⟨x, hx, h1, h2⟩
      · rw [List.mem_singleton.1 hx] at h1
        exact absurd h1 hne
    · rintro ⟨x, hx, h1, h2⟩
      exact ⟨x, List.mem_append_left _ hx, h1, h2⟩

/-- A user without devices can go. -/
theorem consistent_removeUser (h : db.Consistent) {id : Int}
    (hno : ∀ d ∈ db.devices, d.userId ≠ id) : (removeUser id db).Consistent := by
  refine h.setUsers ?_ ?_ fun d hd => ?_
  · exact List.Nodup.sublist ((delete_sublist _ _).map _) h.userId
  · exact List.Nodup.sublist ((delete_sublist _ _).filterMap _) h.userTg
  · obtain ⟨u, hu, hid⟩ := List.mem_map.1 (h.deviceUser d hd)
    refine List.mem_map.2 ⟨u, mem_delete.2 ⟨hu, ?_⟩, hid⟩
    simp only [decide_eq_false_iff_not, hid]
    exact hno d hd

theorem userStep_removeUser (h : Inv db) {id : Int} (hno : ∀ d ∈ db.devices, d.userId ≠ id) :
    UserStep M db [] (removeUser id db) := by
  refine userStep_users h (consistent_removeUser h.consistent hno) ?_ fun d hd => ?_
  · intro u hu
    exact h.enabledBit u (mem_delete.1 hu).1
  · constructor
    · rintro ⟨u, hu, hx⟩
      exact ⟨u, (mem_delete.1 hu).1, hx⟩
    · rintro ⟨u, hu, h1, h2⟩
      refine ⟨u, mem_delete.2 ⟨hu, ?_⟩, h1, h2⟩
      simp only [decide_eq_false_iff_not, h1]
      exact hno d hd

/-! ## A user's flag -/

theorem mem_devicePorts {userId p : Int} : p ∈ devicePorts userId db ↔
    ∃ d ∈ db.devices, d.userId = userId ∧ ∃ s ∈ db.slots, s.id = d.slotId ∧ s.port = p := by
  simp only [devicePorts, List.mem_map, mem_orderBy, List.mem_filter, devicesWithSlot,
    mem_innerJoin, decide_eq_true_eq]
  constructor
  · rintro ⟨x, ⟨⟨hd, hs, hid⟩, hu⟩, hp⟩
    exact ⟨x.1, hd, hu, x.2, hs, hid, hp⟩
  · rintro ⟨d, hd, hu, s, hs, hid, hp⟩
    exact ⟨(d, s), ⟨⟨hd, hs, hid⟩, hu⟩, hp⟩

theorem port_mem_devicePorts (h : Inv db) {userId : Int} {s : Slot} (hs : s ∈ db.slots) :
    s.port ∈ devicePorts userId db ↔ ∃ d ∈ db.devices, d.userId = userId ∧ d.slotId = s.id := by
  rw [mem_devicePorts]
  constructor
  · rintro ⟨d, hd, hu, s', hs', hid, hp⟩
    rw [eq_of_key h.consistent.slotPort hs' hs hp] at hid
    exact ⟨d, hd, hu, hid.symm⟩
  · rintro ⟨d, hd, hu, hid⟩
    exact ⟨d, hd, hu, s, hs, hid.symm, rfl⟩

/-- The slot of a device is assigned, so its shard is active. -/
theorem onActive_of_device (h : Inv db) {d : Device} (hd : d ∈ db.devices) {s : Slot}
    (hs : s ∈ db.slots) (hid : d.slotId = s.id) : s.status = .assigned ∧ OnActive db s := by
  obtain ⟨s', hs', hid', hst⟩ := h.linked.device d hd
  have hss : s' = s := eq_of_key h.consistent.slotId hs' hs (hid'.trans hid)
  rw [hss] at hst
  refine ⟨hst, ?_⟩
  by_contra hna
  rw [h.inactive s hs hna] at hst
  simp at hst

/-- The ports of a user's devices are on active shards. -/
theorem devicePorts_active (h : Inv db) {userId p : Int} (hp : p ∈ devicePorts userId db) :
    ∃ s ∈ db.slots, OnActive db s ∧ s.port = p := by
  obtain ⟨d, hd, -, s, hs, hid, hport⟩ := mem_devicePorts.1 hp
  exact ⟨s, hs, (onActive_of_device h hd hs hid.symm).2, hport⟩

/-- The devices of a slot of some user: its one device, if any. -/
theorem hasEnabledUser_iff (h : Inv db) {d : Device} (hd : d ∈ db.devices) {s : Slot}
    (hid : d.slotId = s.id) :
    HasEnabledUser db s ↔ ∃ u ∈ db.users, u.id = d.userId ∧ u.enabled = 1 := by
  constructor
  · rintro ⟨d', hd', hid', hu⟩
    rw [eq_of_key h.consistent.deviceSlot hd' hd (hid'.trans hid.symm)] at hu
    exact hu
  · exact fun hu => ⟨d, hd, hid, hu⟩

/-- `UPDATE users` of the flag, with the firewall call that belongs to it. -/
theorem userStep_setFlag (h : Inv db) (id : Int) {f : User → User} (hid : ∀ u, (f u).id = u.id)
    (htg : ∀ u, (f u).tgId = u.tgId) {b : Int} (hen : ∀ u, (f u).enabled = b) (hb : b = 0 ∨ b = 1) :
    UserStep M db (if b = 1 then unblockCalls (devicePorts id db) else
      blockCalls (devicePorts id db))
      (updateUser id f db) := by
  have hc : (updateUser id f db).Consistent := consistent_updateUser h.consistent id hid htg
  have hf : PoolFrame db (updateUser id f db) := ⟨rfl, (PoolFrame.refl db).slots⟩
  have hbit : ∀ u ∈ (updateUser id f db).users, u.enabled = 0 ∨ u.enabled = 1 := by
    intro u' hu'
    obtain ⟨u, hu, rfl⟩ := mem_update.1 hu'
    by_cases hui : u.id = id
    · simp only [hui, decide_true, if_true, hen]
      exact hb
    · simpa [hui] using h.enabledBit u hu
  have hi : Inv (updateUser id f db) :=
    h.frame hf hc ⟨h.linked.assigned, h.linked.unassigned, h.linked.device⟩ hbit
  -- the flag of a device's user, after
  have hflag : ∀ d ∈ db.devices,
      (∃ u ∈ (updateUser id f db).users, u.id = d.userId ∧ u.enabled = 1) ↔
      if d.userId = id then b = 1 else ∃ u ∈ db.users, u.id = d.userId ∧ u.enabled = 1 := by
    intro d hd
    obtain ⟨u, hu, huid⟩ := List.mem_map.1 (h.consistent.deviceUser d hd)
    by_cases hdi : d.userId = id
    · rw [if_pos hdi]
      constructor
      · rintro ⟨u', hu', h1, h2⟩
        obtain ⟨x, hx, rfl⟩ := mem_update.1 hu'
        by_cases hxi : x.id = id
        · simp only [hxi, decide_true, if_true, hen] at h2
          exact h2
        · simp only [hxi, decide_false, Bool.false_eq_true, if_false] at h1
          exact absurd (h1.trans hdi) hxi
      · intro hb1
        refine ⟨f u, mem_update.2 ⟨u, hu, ?_⟩, by rw [hid, huid], by rw [hen, hb1]⟩
        simp [huid, hdi]
    · rw [if_neg hdi]
      constructor
      · rintro ⟨u', hu', h1, h2⟩
        obtain ⟨x, hx, rfl⟩ := mem_update.1 hu'
        by_cases hxi : x.id = id
        · simp only [hxi, decide_true, if_true, hid] at h1
          exact absurd h1.symm hdi
        · simp only [hxi, decide_false, Bool.false_eq_true, if_false] at h1 h2
          exact ⟨x, hx, h1, h2⟩
      · rintro ⟨x, hx, h1, h2⟩
        have hxi : x.id ≠ id := fun he => hdi (h1.symm.trans he)
        exact ⟨x, mem_update.2 ⟨x, hx, by simp [hxi]⟩, h1, h2⟩
  -- openness of a slot, after: through its device
  have hopen : ∀ s ∈ db.slots, ∀ s' ∈ (updateUser id f db).slots, SlotProgress db s s' →
      (IsOpen (updateUser id f db) s' ↔
        if s.port ∈ devicePorts id db then b = 1 else IsOpen db s) := by
    intro s hs s' hs' hp
    have hss : s' = s := eq_of_key h.consistent.slotId hs' hs (core_eq_iff.1 hp.1).1
    rw [hss]
    by_cases hport : s.port ∈ devicePorts id db
    · rw [if_pos hport]
      obtain ⟨d, hd, hdu, hds⟩ := (port_mem_devicePorts h hs).1 hport
      obtain ⟨hst, hact⟩ := onActive_of_device h hd hs hds
      have := hasEnabledUser_iff hi (d := d) hd (s := s) hds
      rw [hflag d hd, if_pos hdu] at this
      simp only [IsOpen, hst, true_and, this]
      exact and_iff_right hact
    · rw [if_neg hport]
      have hdev : ∀ d ∈ db.devices, d.slotId = s.id → d.userId ≠ id :=
        fun d hd hds hdu => hport ((port_mem_devicePorts h hs).2 ⟨d, hd, hdu, hds⟩)
      have : HasEnabledUser (updateUser id f db) s ↔ HasEnabledUser db s := by
        constructor
        · rintro ⟨d, hd, hds, hu⟩
          have := (hflag d hd).1 hu
          rw [if_neg (hdev d hd hds)] at this
          exact ⟨d, hd, hds, this⟩
        · rintro ⟨d, hd, hds, hu⟩
          refine ⟨d, hd, hds, (hflag d hd).2 ?_⟩
          rw [if_neg (hdev d hd hds)]
          exact hu
      simp only [IsOpen, this]
      rfl
  refine ⟨hi, hf, ?_, fun _ hd => .inr (.of_mem hd)⟩
  rcases hb with rfl | rfl
  · rw [if_neg (by decide)]
    have := FwStep.of_ports (b := devicePorts id db) (u := []) h hi hf (by simp)
      (fun s hs s' hs' hp _ hm => by rw [hopen s hs s' hs' hp, if_pos hm]; decide)
      (fun s hs s' hs' hp _ hm => by rw [hopen s hs s' hs' hp, if_neg hm])
    simpa using this
  · rw [if_pos rfl]
    have := FwStep.of_ports (b := []) (u := devicePorts id db) h hi hf
      (fun s hs s' hs' hp hm => by rw [hopen s hs s' hs' hp, if_pos hm]) (by simp)
      (fun s hs s' hs' hp hm _ => by rw [hopen s hs s' hs' hp, if_neg hm])
    simpa using this

/-! ## A device gets a slot -/

/-- The frame of a change of one slot's status and device. -/
theorem poolFrame_setSlot (h : Inv db) {s : Slot} (hs : s ∈ db.slots) (hact : OnActive db s)
    {st : Status} {device : Option Int} (hst : s.status = .free ∧ st = .assigned ∨ st = .dirty) :
    List.Forall₂ (SlotProgress db) db.slots (setSlot s.id st device db).slots := by
  refine forall₂_update (fun _ _ => ⟨rfl, .inl rfl⟩) fun a ha hp => ⟨rfl, .inr ?_⟩
  simp only [decide_eq_true_eq] at hp
  have has : a = s := eq_of_key h.consistent.slotId ha hs hp
  rw [has]
  exact ⟨hact, hst⟩

/-- The row that `setSlot` leaves for a slot. -/
theorem setSlot_row (h : Inv db) {id : Int} {st : Status} {device : Option Int} {s s' : Slot}
    (hs : s ∈ db.slots) (hs' : s' ∈ (setSlot id st device db).slots) (hid : s'.id = s.id) :
    s' = if s.id = id then { s with status := st, deviceId := device } else s := by
  have := eq_of_mem_update (f := fun s : Slot => { s with status := st, deviceId := device })
    h.consistent.slotId (fun _ => rfl) hs hs' hid
  simpa using this

/-- The slot and the device after `_attach_device`. -/
def attach (d : Device) (db : DB) : DB := addDeviceRow d (setSlot d.slotId .assigned (some d.id) db)

/-- No device references a slot that is not assigned. -/
theorem notMem_deviceSlots (h : Inv db) {s : Slot} (hs : s ∈ db.slots)
    (hst : s.status ≠ .assigned) : s.id ∉ db.devices.map (·.slotId) := by
  intro hm
  obtain ⟨d, hd, hid⟩ := List.mem_map.1 hm
  exact hst (onActive_of_device h hd hs hid).1

theorem consistent_addDeviceRow (h : Inv db) {d : Device} {s : Slot} (hs : s ∈ db.slots)
    (hst : s.status ≠ .assigned) (hds : d.slotId = s.id)
    (hid : d.id = nextRowid (db.devices.map (·.id))) (hu : d.userId ∈ db.users.map (·.id))
    (st : Status) (device : Option Int) :
    (addDeviceRow d (setSlot s.id st device db)).Consistent := by
  refine (consistent_setSlot h.consistent s.id st device).setDevices ?_ ?_ ?_ ?_
  · rw [List.map_append, List.map_cons, List.map_nil, hid]
    exact nodup_append_nextRowid h.consistent.deviceId
  · rw [List.map_append, List.map_cons, List.map_nil, hds]
    refine List.nodup_append.2 ⟨h.consistent.deviceSlot, by simp, fun a ha b hb => ?_⟩
    rw [List.mem_singleton.1 hb]
    rintro rfl
    exact notMem_deviceSlots h hs hst ha
  · intro x hx
    rcases List.mem_append.1 hx with hx | hx
    · exact h.consistent.deviceUser x hx
    · rw [List.mem_singleton.1 hx]
      exact hu
  · intro x hx
    rw [map_of_cores (g := fun s : Slot => s.id) (fun _ => rfl) (setSlot_cores s.id st device db)]
    rcases List.mem_append.1 hx with hx | hx
    · exact h.consistent.deviceSlotRef x hx
    · rw [List.mem_singleton.1 hx, hds]
      exact List.mem_map_of_mem hs

theorem userStep_attach (h : Inv db) {d : Device} {s : Slot} (hs : s ∈ db.slots)
    (hst : s.status = .free) (hact : OnActive db s) (hds : d.slotId = s.id)
    (hid : d.id = nextRowid (db.devices.map (·.id))) {u : User} (hu : u ∈ db.users)
    (hdu : d.userId = u.id) :
    UserStep M db (if u.enabled = 1 then unblockCalls [s.port] else []) (attach d db) := by
  have hne : s.status ≠ .assigned := by rw [hst]; decide
  have hc : (attach d db).Consistent := by
    unfold attach
    rw [hds]
    exact consistent_addDeviceRow h hs hne hds hid (by rw [hdu]; exact List.mem_map_of_mem hu) _ _
  have hf : PoolFrame db (attach d db) := by
    refine ⟨rfl, ?_⟩
    unfold attach
    rw [hds]
    exact poolFrame_setSlot h hs hact (.inl ⟨hst, rfl⟩)
  have hrow : ∀ x ∈ db.slots, ∀ x' ∈ (attach d db).slots, x'.id = x.id →
      x' = if x.id = s.id then { x with status := .assigned, deviceId := some d.id } else x := by
    intro x hx x' hx' hxid
    have := setSlot_row h hx hx' hxid
    rw [hds] at this
    exact this
  have hl : Linked (attach d db) := by
    refine ⟨fun x' hx' hxst => ?_, fun x' hx' hxst => ?_, fun e he => ?_⟩
    · obtain ⟨x, hx, hp⟩ := hf.before hx'
      have hrw := hrow x hx x' hx' (core_eq_iff.1 hp.1).1
      by_cases hxs : x.id = s.id
      · rw [if_pos hxs] at hrw
        rw [hrw]
        exact ⟨d, List.mem_append_right _ (by simp), hds.trans hxs.symm, rfl⟩
      · rw [if_neg hxs] at hrw
        rw [hrw] at hxst ⊢
        obtain ⟨e, he, h1, h2⟩ := h.linked.assigned x hx hxst
        exact ⟨e, List.mem_append_left _ he, h1, h2⟩
    · obtain ⟨x, hx, hp⟩ := hf.before hx'
      have hrw := hrow x hx x' hx' (core_eq_iff.1 hp.1).1
      by_cases hxs : x.id = s.id
      · rw [if_pos hxs] at hrw
        rw [hrw] at hxst
        simp at hxst
      · rw [if_neg hxs] at hrw
        rw [hrw] at hxst ⊢
        exact h.linked.unassigned x hx hxst
    · rcases List.mem_append.1 he with he | he
      · obtain ⟨x, hx, h1, h2⟩ := h.linked.device e he
        obtain ⟨x', hx', hp⟩ := hf.after hx
        have hrw := hrow x hx x' hx' (core_eq_iff.1 hp.1).1
        by_cases hxs : x.id = s.id
        · rw [eq_of_key h.consistent.slotId hx hs hxs] at h2
          exact absurd h2 hne
        · rw [if_neg hxs] at hrw
          rw [hrw] at hx'
          exact ⟨x, hx', h1, h2⟩
      · rw [List.mem_singleton.1 he]
        obtain ⟨x', hx', hp⟩ := hf.after hs
        have hrw := hrow s hs x' hx' (core_eq_iff.1 hp.1).1
        rw [if_pos rfl] at hrw
        exact ⟨x', hx', by rw [hrw, hds], by rw [hrw]⟩
  have hi : Inv (attach d db) := h.frame hf hc hl h.enabledBit
  have hopen : ∀ x ∈ db.slots, ∀ x' ∈ (attach d db).slots, SlotProgress db x x' →
      (IsOpen (attach d db) x' ↔ if x.port = s.port then u.enabled = 1 else IsOpen db x) := by
    intro x hx x' hx' hp
    have hrw := hrow x hx x' hx' (core_eq_iff.1 hp.1).1
    by_cases hxs : x.id = s.id
    · have hxe : x = s := eq_of_key h.consistent.slotId hx hs hxs
      rw [if_pos (by rw [hxe])]
      have hdm : d ∈ (attach d db).devices := List.mem_append_right _ (by simp)
      have hen := hasEnabledUser_iff hi hdm (s := x') (by rw [hds, (core_eq_iff.1 hp.1).1, hxe])
      have hone : (∃ y ∈ (attach d db).users, y.id = d.userId ∧ y.enabled = 1) ↔ u.enabled = 1 := by
        constructor
        · rintro ⟨y, hy, h1, h2⟩
          rw [eq_of_key h.consistent.userId hy hu (h1.trans hdu)] at h2
          exact h2
        · exact fun he => ⟨u, hu, hdu.symm, he⟩
      have hst' : x'.status = .assigned := by rw [hrw, if_pos hxs]
      have hact' : OnActive (attach d db) x' := (hf.onActive hp).2 (by rw [hxe]; exact hact)
      rw [IsOpen, hen, hone]
      simp [hst', hact']
    · have hport : x.port ≠ s.port := fun he =>
          hxs (by rw [eq_of_key h.consistent.slotPort hx hs he])
      rw [if_neg hport]
      rw [if_neg hxs] at hrw
      rw [hrw]
      have : HasEnabledUser (attach d db) x ↔ HasEnabledUser db x := by
        constructor
        · rintro ⟨e, he, h1, h2⟩
          rcases List.mem_append.1 he with he | he
          · exact ⟨e, he, h1, h2⟩
          · rw [List.mem_singleton.1 he, hds] at h1
            exact absurd h1.symm hxs
        · rintro ⟨e, he, h1, h2⟩
          exact ⟨e, List.mem_append_left _ he, h1, h2⟩
      simp only [IsOpen, this]
      exact Iff.rfl
  refine ⟨hi, hf, ?_, fun e he => .inr (.of_mem (List.mem_append_left _ he))⟩
  by_cases hen : u.enabled = 1
  · rw [if_pos hen]
    have := FwStep.of_ports (b := []) (u := [s.port]) h hi hf
      (fun x hx x' hx' hp hm => by
        rw [hopen x hx x' hx' hp, if_pos (by simpa using hm)]; exact hen)
      (by simp)
      (fun x hx x' hx' hp hm _ => by rw [hopen x hx x' hx' hp, if_neg (by simpa using hm)])
    simpa using this
  · rw [if_neg hen]
    refine FwStep.of_same h hi hf fun x hx x' hx' hp => ?_
    rw [hopen x hx x' hx' hp]
    by_cases hport : x.port = s.port
    · -- the free slot was closed and stays closed
      rw [if_pos hport, eq_of_key h.consistent.slotPort hx hs hport]
      simp [hen, IsOpen, hst]
    · rw [if_neg hport]

/-! ## Devices give their slots back -/

/-- `status = 'dirty', device_id = NULL` -/
def released (s : Slot) : Slot := { s with status := .dirty, deviceId := none }

/-- `release_slot` of some slots. -/
def releaseSlots (ids : List Int) (db : DB) : DB :=
  { db with slots := update (fun s => decide (s.id ∈ ids)) released db.slots }

/-- The devices that `p` picks are deleted and their slots released. -/
def detach (p : Device → Bool) (db : DB) : DB :=
  { releaseSlots ((db.devices.filter p).map (·.slotId)) db with devices := delete p db.devices }

theorem releaseSlots_cores (ids : List Int) (db : DB) :
    (releaseSlots ids db).slots.map Slot.core = db.slots.map Slot.core := by
  refine map_update Slot.core ?_ _
  intro s _
  rfl

theorem consistent_releaseSlots (h : db.Consistent) (ids : List Int) :
    (releaseSlots ids db).Consistent :=
  h.setSlots (releaseSlots_cores ids db)

theorem consistent_deleteDevices (h : db.Consistent) (p : Device → Bool) :
    { db with devices := delete p db.devices }.Consistent := by
  refine h.setDevices ?_ ?_ (fun d hd => h.deviceUser d (mem_delete.1 hd).1)
    fun d hd => h.deviceSlotRef d (mem_delete.1 hd).1
  · exact List.Nodup.sublist ((delete_sublist _ _).map _) h.deviceId
  · exact List.Nodup.sublist ((delete_sublist _ _).map _) h.deviceSlot

theorem mem_picked {p : Device → Bool} {i : Int} :
    i ∈ (db.devices.filter p).map (·.slotId) ↔ ∃ d ∈ db.devices, p d = true ∧ d.slotId = i := by
  simp only [List.mem_map, List.mem_filter]
  constructor
  · rintro ⟨d, ⟨hd, hp⟩, hi⟩
    exact ⟨d, hd, hp, hi⟩
  · rintro ⟨d, hd, hp, hi⟩
    exact ⟨d, ⟨hd, hp⟩, hi⟩

/-- The ports to block are those of the slots given back. -/
theorem userStep_detach (h : Inv db) {p : Device → Bool} {ports : List Int}
    (hports : ∀ s ∈ db.slots, s.port ∈ ports ↔ ∃ d ∈ db.devices, p d = true ∧ d.slotId = s.id)
    (hmoves : ∀ d ∈ db.devices, p d = true → M d.id d.userId) :
    UserStep M db (blockCalls ports) (detach p db) := by
  have hc : (detach p db).Consistent :=
    consistent_deleteDevices (consistent_releaseSlots h.consistent _) p
  have hf : PoolFrame db (detach p db) := by
    refine ⟨rfl, forall₂_update (fun _ _ => ⟨rfl, .inl rfl⟩) fun s hs hp => ⟨rfl, .inr ?_⟩⟩
    obtain ⟨d, hd, -, hds⟩ := mem_picked.1 (of_decide_eq_true hp)
    exact ⟨(onActive_of_device h hd hs hds).2, .inr rfl⟩
  have hrow : ∀ s ∈ db.slots, ∀ s' ∈ (detach p db).slots, s'.id = s.id →
      s' = if s.port ∈ ports then released s else s := by
    intro s hs s' hs' hid
    have := eq_of_mem_update (f := released) h.consistent.slotId (fun _ => rfl) hs hs' hid
    simpa only [decide_eq_true_eq, mem_picked, ← hports s hs] using this
  have hl : Linked (detach p db) := by
    refine ⟨fun s' hs' hst => ?_, fun s' hs' hst => ?_, fun d hd => ?_⟩
    · obtain ⟨s, hs, hp⟩ := hf.before hs'
      have hrw := hrow s hs s' hs' (core_eq_iff.1 hp.1).1
      by_cases hm : s.port ∈ ports
      · rw [if_pos hm] at hrw
        rw [hrw] at hst
        simp [released] at hst
      · rw [if_neg hm] at hrw
        rw [hrw] at hst ⊢
        obtain ⟨d, hd, h1, h2⟩ := h.linked.assigned s hs hst
        refine ⟨d, mem_delete.2 ⟨hd, ?_⟩, h1, h2⟩
        by_contra hpd
        exact hm ((hports s hs).2 ⟨d, hd, by simpa using hpd, h1⟩)
    · obtain ⟨s, hs, hp⟩ := hf.before hs'
      have hrw := hrow s hs s' hs' (core_eq_iff.1 hp.1).1
      by_cases hm : s.port ∈ ports
      · rw [if_pos hm] at hrw
        rw [hrw]
        rfl
      · rw [if_neg hm] at hrw
        rw [hrw] at hst ⊢
        exact h.linked.unassigned s hs hst
    · obtain ⟨hd, hpd⟩ := mem_delete.1 hd
      obtain ⟨s, hs, h1, h2⟩ := h.linked.device d hd
      obtain ⟨s', hs', hp⟩ := hf.after hs
      have hrw := hrow s hs s' hs' (core_eq_iff.1 hp.1).1
      have hm : s.port ∉ ports := by
        intro hm
        obtain ⟨d', hd', hp', hds'⟩ := (hports s hs).1 hm
        rw [eq_of_key h.consistent.deviceSlot hd' hd (hds'.trans h1), hpd] at hp'
        simp at hp'
      rw [if_neg hm] at hrw
      rw [hrw] at hs'
      exact ⟨s, hs', h1, h2⟩
  have hi : Inv (detach p db) := h.frame hf hc hl h.enabledBit
  refine ⟨hi, hf, ?_, fun d hd => ?_⟩
  · have := FwStep.of_ports (b := ports) (u := []) h hi hf (by simp)
      (fun s hs s' hs' hp _ hm ho => by
        have hrw := hrow s hs s' hs' (core_eq_iff.1 hp.1).1
        rw [if_pos hm] at hrw
        rw [hrw] at ho
        simpa [released] using ho.1)
      (fun s hs s' hs' hp _ hm => by
        have hrw := hrow s hs s' hs' (core_eq_iff.1 hp.1).1
        rw [if_neg hm] at hrw
        rw [hrw]
        have : HasEnabledUser (detach p db) s ↔ HasEnabledUser db s := by
          constructor
          · rintro ⟨d, hd, hx⟩
            exact ⟨d, (mem_delete.1 hd).1, hx⟩
          · rintro ⟨d, hd, hds, hx⟩
            refine ⟨d, mem_delete.2 ⟨hd, ?_⟩, hds, hx⟩
            by_contra hpd
            exact hm ((hports s hs).2 ⟨d, hd, by simpa using hpd, hds⟩)
        simp only [IsOpen, this]
        exact Iff.rfl)
    simpa using this
  · by_cases hpd : p d = true
    · exact .inl (hmoves d hd hpd)
    · exact .inr (.of_mem (mem_delete.2 ⟨hd, by simpa using hpd⟩))

/-! ## A device moves to a clean slot -/

/-- `rotate_device` without its journal entry. -/
def move (deviceId new old : Int) (db : DB) : DB :=
  updateDevice deviceId (fun d => { d with slotId := new })
    (setSlot old .dirty none (setSlot new .assigned (some deviceId) db))

theorem mem_updateDevice {id : Int} {f : Device → Device} {d' : Device} :
    d' ∈ (updateDevice id f db).devices ↔ ∃ d ∈ db.devices, d' = if d.id = id then f d else d := by
  simp [updateDevice, mem_update, eq_comm]

theorem consistent_moveDevice (h : Inv db) (d : Device) {s : Slot} (hs : s ∈ db.slots)
    (hst : s.status = .free) {xs : List Slot} (hxs : xs.map Slot.core = db.slots.map Slot.core) :
    (updateDevice d.id (fun d => { d with slotId := s.id })
      { db with slots := xs }).Consistent := by
  have hne : s.status ≠ .assigned := by rw [hst]; decide
  have hrow : ∀ e : Device,
      (if decide (e.id = d.id) = true then { e with slotId := s.id } else e).id = e.id ∧
      (if decide (e.id = d.id) = true then { e with slotId := s.id } else e).userId = e.userId := by
    intro e
    split <;> exact ⟨rfl, rfl⟩
  refine (h.consistent.setSlots hxs).setDevices ?_ ?_ ?_ ?_
  · have := map_update (f := fun e : Device => { e with slotId := s.id }) (fun e : Device => e.id)
      (p := fun e => decide (e.id = d.id)) (fun _ _ => rfl) db.devices
    rw [this]
    exact h.consistent.deviceId
  · -- the slot is in no other row, so replacing one entry keeps the column free of repetitions
    have hnot := notMem_deviceSlots h hs hne
    rw [show (update (fun e => decide (e.id = d.id)) (fun e : Device => { e with slotId := s.id })
        db.devices).map (·.slotId) = db.devices.map fun e => if e.id = d.id then
        s.id else e.slotId by
      simp only [update, List.map_map]
      refine List.map_congr_left fun e _ => ?_
      by_cases he : e.id = d.id <;> simp [he]]
    refine List.Nodup.map_on ?_ (nodup_of_map h.consistent.deviceId)
    intro x hx y hy hxy
    by_cases hxd : x.id = d.id
    · by_cases hyd : y.id = d.id
      · exact eq_of_key h.consistent.deviceId hx hy (hxd.trans hyd.symm)
      · rw [if_pos hxd, if_neg hyd] at hxy
        exact absurd (List.mem_map.2 ⟨y, hy, hxy.symm⟩) hnot
    · by_cases hyd : y.id = d.id
      · rw [if_neg hxd, if_pos hyd] at hxy
        exact absurd (List.mem_map.2 ⟨x, hx, hxy⟩) hnot
      · rw [if_neg hxd, if_neg hyd] at hxy
        exact eq_of_key h.consistent.deviceSlot hx hy hxy
  · intro e' he'
    obtain ⟨e, he, rfl⟩ := mem_update.1 he'
    rw [(hrow e).2]
    exact h.consistent.deviceUser e he
  · intro e' he'
    obtain ⟨e, he, rfl⟩ := mem_update.1 he'
    rw [map_of_cores (g := fun s : Slot => s.id) (fun _ => rfl) hxs]
    split
    · exact List.mem_map_of_mem hs
    · exact h.consistent.deviceSlotRef e he

theorem userStep_move (h : Inv db) {d : Device} (hd : d ∈ db.devices) {old s : Slot}
    (hold : old ∈ db.slots) (hdo : d.slotId = old.id) (hs : s ∈ db.slots) (hst : s.status = .free)
    (hact : OnActive db s) {u : User} (hu : u ∈ db.users) (hdu : d.userId = u.id)
    (hmoves : M d.id d.userId) :
    UserStep M db (blockCalls [old.port] ++ if u.enabled = 1 then unblockCalls [s.port] else [])
      (move d.id s.id old.id db) := by
  obtain ⟨hostat, hoact⟩ := onActive_of_device h hd hold hdo
  have hne : s.id ≠ old.id := by
    intro he
    rw [eq_of_key h.consistent.slotId hs hold he, hostat] at hst
    simp at hst
  have hcores : (setSlot old.id .dirty none (setSlot s.id .assigned (some d.id) db)).slots.map
      Slot.core = db.slots.map Slot.core := (setSlot_cores ..).trans (setSlot_cores ..)
  have hc : (move d.id s.id old.id db).Consistent := consistent_moveDevice h d hs hst hcores
  have hrow : ∀ x ∈ db.slots, ∀ x' ∈ (move d.id s.id old.id db).slots, x'.id = x.id →
      x' = if x.id = old.id then { x with status := .dirty, deviceId := none }
        else if x.id = s.id then { x with status := .assigned, deviceId := some d.id } else x := by
    intro x hx x' hx' hid
    obtain ⟨y, hy, hxy⟩ := mem_setSlot.1 hx'
    obtain ⟨z, hz, hyz⟩ := mem_setSlot.1 hy
    have hyid : y.id = x.id := by
      rw [← hid, hxy]
      split <;> rfl
    have hzid : z.id = x.id := by
      rw [← hyid, hyz]
      split <;> rfl
    rw [eq_of_key h.consistent.slotId hz hx hzid] at hyz
    rw [hyid] at hxy
    rw [hxy]
    by_cases h1 : x.id = old.id
    · have h2 : x.id ≠ s.id := fun he => hne (he.symm.trans h1)
      rw [if_neg h2] at hyz
      rw [if_pos h1, if_pos h1, hyz]
    · rw [if_neg h1, if_neg h1, hyz]
  have hf : PoolFrame db (move d.id s.id old.id db) := by
    refine @PoolFrame.trans _ (setSlot s.id .assigned (some d.id) db) _ ⟨rfl, ?_⟩ ⟨rfl, ?_⟩
    · exact poolFrame_setSlot h hs hact (.inl ⟨hst, rfl⟩)
    · refine forall₂_update (fun _ _ => ⟨rfl, .inl rfl⟩) fun a ha hp => ⟨rfl, .inr ⟨?_, .inr rfl⟩⟩
      simp only [decide_eq_true_eq] at hp
      obtain ⟨x, hx, rfl⟩ := mem_setSlot.1 ha
      have hxo : x = old := by
        refine eq_of_key h.consistent.slotId hx hold ?_
        rw [← hp]
        split <;> rfl
      rw [hxo, if_neg (Ne.symm hne)]
      exact hoact
  have hdev : ∀ e' ∈ (move d.id s.id old.id db).devices, ∃ e ∈ db.devices,
      e' = if e.id = d.id then { e with slotId := s.id } else
      e := fun e' he' => mem_updateDevice.1 he'
  have hdmem : { d with slotId := s.id } ∈ (move d.id s.id old.id db).devices :=
    mem_updateDevice.2 ⟨d, hd, by rw [if_pos rfl]⟩
  have hkeep : ∀ e ∈ db.devices, e.id ≠ d.id → e ∈ (move d.id s.id old.id db).devices :=
    fun e he hid => mem_updateDevice.2 ⟨e, he, by rw [if_neg hid]⟩
  have hl : Linked (move d.id s.id old.id db) := by
    refine ⟨fun x' hx' hxst => ?_, fun x' hx' hxst => ?_, fun e' he' => ?_⟩
    · obtain ⟨x, hx, hp⟩ := hf.before hx'
      have hrw := hrow x hx x' hx' (core_eq_iff.1 hp.1).1
      by_cases h1 : x.id = old.id
      · rw [if_pos h1] at hrw
        rw [hrw] at hxst
        simp at hxst
      · rw [if_neg h1] at hrw
        by_cases h2 : x.id = s.id
        · rw [if_pos h2] at hrw
          rw [hrw]
          exact ⟨_, hdmem, h2.symm, rfl⟩
        · rw [if_neg h2] at hrw
          rw [hrw] at hxst ⊢
          obtain ⟨e, he, h3, h4⟩ := h.linked.assigned x hx hxst
          refine ⟨e, hkeep e he fun hed => h1 ?_, h3, h4⟩
          rw [← h3, eq_of_key h.consistent.deviceId he hd hed, hdo]
    · obtain ⟨x, hx, hp⟩ := hf.before hx'
      have hrw := hrow x hx x' hx' (core_eq_iff.1 hp.1).1
      by_cases h1 : x.id = old.id
      · rw [if_pos h1] at hrw
        rw [hrw]
      · rw [if_neg h1] at hrw
        by_cases h2 : x.id = s.id
        · rw [if_pos h2] at hrw
          rw [hrw] at hxst
          simp at hxst
        · rw [if_neg h2] at hrw
          rw [hrw] at hxst ⊢
          exact h.linked.unassigned x hx hxst
    · obtain ⟨e, he, rfl⟩ := hdev e' he'
      by_cases hed : e.id = d.id
      · rw [if_pos hed]
        obtain ⟨x', hx', hp⟩ := hf.after hs
        have hrw := hrow s hs x' hx' (core_eq_iff.1 hp.1).1
        rw [if_neg hne, if_pos rfl] at hrw
        exact ⟨x', hx', (core_eq_iff.1 hp.1).1, by rw [hrw]⟩
      · rw [if_neg hed]
        obtain ⟨x, hx, h3, h4⟩ := h.linked.device e he
        obtain ⟨x', hx', hp⟩ := hf.after hx
        have hrw := hrow x hx x' hx' (core_eq_iff.1 hp.1).1
        have h1 : x.id ≠ old.id := fun heq => hed (by
          rw [eq_of_key h.consistent.deviceSlot he hd (by rw [← h3, heq, hdo])])
        have h2 : x.id ≠ s.id := by
          intro heq
          rw [eq_of_key h.consistent.slotId hx hs heq, hst] at h4
          simp at h4
        rw [if_neg h1, if_neg h2] at hrw
        rw [hrw] at hx'
        exact ⟨x, hx', h3, h4⟩
  have hi : Inv (move d.id s.id old.id db) := h.frame hf hc hl h.enabledBit
  have hopen : ∀ x ∈ db.slots, ∀ x' ∈ (move d.id s.id old.id db).slots, SlotProgress db x x' →
      (IsOpen (move d.id s.id old.id db) x' ↔
        if x.port = old.port then False else if x.port = s.port then u.enabled = 1 else
        IsOpen db x) := by
    intro x hx x' hx' hp
    have hrw := hrow x hx x' hx' (core_eq_iff.1 hp.1).1
    by_cases h1 : x.id = old.id
    · rw [if_pos (by rw [eq_of_key h.consistent.slotId hx hold h1])]
      rw [if_pos h1] at hrw
      simp [IsOpen, hrw]
    · rw [if_neg fun he => h1 (by rw [eq_of_key h.consistent.slotPort hx hold he])]
      rw [if_neg h1] at hrw
      by_cases h2 : x.id = s.id
      · have hxs : x = s := eq_of_key h.consistent.slotId hx hs h2
        rw [if_pos (by rw [hxs])]
        rw [if_pos h2] at hrw
        have hen := hasEnabledUser_iff hi hdmem (s := x') (by rw [hrw]; exact h2.symm)
        have hone : (∃ y ∈ (move d.id s.id old.id db).users, y.id = d.userId ∧ y.enabled = 1) ↔
            u.enabled = 1 := by
          constructor
          · rintro ⟨y, hy, h3, h4⟩
            rw [eq_of_key h.consistent.userId hy hu (h3.trans hdu)] at h4
            exact h4
          · exact fun he => ⟨u, hu, hdu.symm, he⟩
        have hst' : x'.status = .assigned := by rw [hrw]
        have hact' : OnActive (move d.id s.id old.id db) x' :=
          (hf.onActive hp).2 (by rw [hxs]; exact hact)
        rw [IsOpen, hen, hone]
        simp [hst', hact']
      · rw [if_neg fun he => h2 (by rw [eq_of_key h.consistent.slotPort hx hs he])]
        rw [if_neg h2] at hrw
        rw [hrw]
        have : HasEnabledUser (move d.id s.id old.id db) x ↔ HasEnabledUser db x := by
          constructor
          · rintro ⟨e', he', h3, h4⟩
            obtain ⟨e, he, rfl⟩ := hdev e' he'
            by_cases hed : e.id = d.id
            · rw [if_pos hed] at h3
              exact absurd h3.symm h2
            · rw [if_neg hed] at h3 h4
              exact ⟨e, he, h3, h4⟩
          · rintro ⟨e, he, h3, h4⟩
            refine ⟨e, hkeep e he fun hed => h1 ?_, h3, h4⟩
            rw [← h3, eq_of_key h.consistent.deviceId he hd hed, hdo]
        simp only [IsOpen, this]
        exact Iff.rfl
  have hport : s.port ≠ old.port := fun he =>
      hne (by rw [eq_of_key h.consistent.slotPort hs hold he])
  refine ⟨hi, hf, ?_, fun e he => ?_⟩
  · by_cases hen : u.enabled = 1
    · rw [if_pos hen]
      refine FwStep.of_ports h hi hf (fun x hx x' hx' hp hm => ?_) (fun x hx x' hx' hp _ hm => ?_)
        fun x hx x' hx' hp hm hm' => ?_
      · rw [List.mem_singleton] at hm
        rw [hopen x hx x' hx' hp, if_neg (by rw [hm]; exact hport), if_pos hm]
        exact hen
      · rw [hopen x hx x' hx' hp, if_pos (by simpa using hm)]
        exact not_false
      · rw [hopen x hx x' hx' hp, if_neg (by simpa using hm'), if_neg (by simpa using hm)]
    · rw [if_neg hen]
      have := FwStep.of_ports (b := [old.port]) (u := []) h hi hf (by simp)
        (fun x hx x' hx' hp _ hm => by
          rw [hopen x hx x' hx' hp, if_pos (by simpa using hm)]; exact not_false)
        (fun x hx x' hx' hp _ hm => by
          rw [hopen x hx x' hx' hp, if_neg (by simpa using hm)]
          by_cases hxs : x.port = s.port
          · rw [if_pos hxs, eq_of_key h.consistent.slotPort hx hs hxs]
            simp [hen, IsOpen, hst]
          · rw [if_neg hxs])
      simpa using this
  · by_cases hed : e.id = d.id
    · rw [eq_of_key h.consistent.deviceId he hd hed]
      exact .inl hmoves
    · exact .inr (.of_mem (hkeep e he hed))

/-! ## A device's name -/

theorem userStep_renameDevice (h : Inv db) (id : Int) (name : String) :
    UserStep M db [] (updateDevice id (fun d => { d with name := name }) db) := by
  have hmem : ∀ d' ∈ (updateDevice id (fun d => { d with name := name }) db).devices,
      ∃ d ∈ db.devices, d'.id = d.id ∧ d'.userId = d.userId ∧ d'.slotId = d.slotId := by
    intro d' hd'
    obtain ⟨d, hd, rfl⟩ := mem_updateDevice.1 hd'
    refine ⟨d, hd, ?_⟩
    split <;> exact ⟨rfl, rfl, rfl⟩
  have hmem' : ∀ d ∈ db.devices,
      KeepsSlot (updateDevice id (fun d => { d with name := name }) db) d := by
    intro d hd
    refine ⟨_, mem_updateDevice.2 ⟨d, hd, rfl⟩, ?_⟩
    split <;> exact ⟨rfl, rfl, rfl⟩
  have hc : (updateDevice id (fun d => { d with name := name }) db).Consistent := by
    refine h.consistent.setDevices ?_ ?_ ?_ ?_
    · have := map_update (f := fun d : Device => { d with name := name }) (fun d : Device => d.id)
        (p := fun d => decide (d.id = id)) (fun _ _ => rfl) db.devices
      rw [this]
      exact h.consistent.deviceId
    · have := map_update (f := fun d : Device => { d with name := name })
          (fun d : Device => d.slotId)
        (p := fun d => decide (d.id = id)) (fun _ _ => rfl) db.devices
      rw [this]
      exact h.consistent.deviceSlot
    · intro d' hd'
      obtain ⟨d, hd, -, hu, -⟩ := hmem d' hd'
      rw [hu]
      exact h.consistent.deviceUser d hd
    · intro d' hd'
      obtain ⟨d, hd, -, -, hs⟩ := hmem d' hd'
      rw [hs]
      exact h.consistent.deviceSlotRef d hd
  have hf : PoolFrame db (updateDevice id (fun d => { d with name := name }) db) :=
    ⟨rfl, (PoolFrame.refl db).slots⟩
  have hl : Linked (updateDevice id (fun d => { d with name := name }) db) := by
    refine ⟨fun s hs hst => ?_, h.linked.unassigned, fun d' hd' => ?_⟩
    · obtain ⟨d, hd, h1, h2⟩ := h.linked.assigned s hs hst
      obtain ⟨d', hd', hid, -, hsl⟩ := hmem' d hd
      exact ⟨d', hd', hsl.trans h1, by rw [h2, hid]⟩
    · obtain ⟨d, hd, -, -, hsl⟩ := hmem d' hd'
      obtain ⟨s, hs, h1, h2⟩ := h.linked.device d hd
      exact ⟨s, hs, by rw [hsl, h1], h2⟩
  have hi := h.frame hf hc hl h.enabledBit
  refine ⟨hi, hf, FwStep.of_same h hi hf fun s hs s' hs' hp => ?_, fun d hd => .inr (hmem' d hd)⟩
  rw [eq_of_key h.consistent.slotId hs' hs (core_eq_iff.1 hp.1).1]
  have : HasEnabledUser (updateDevice id (fun d => { d with name := name }) db) s ↔
      HasEnabledUser db s := by
    constructor
    · rintro ⟨d', hd', h1, h2⟩
      obtain ⟨d, hd, -, hu, hsl⟩ := hmem d' hd'
      exact ⟨d, hd, hsl ▸ h1, hu ▸ h2⟩
    · rintro ⟨d, hd, h1, h2⟩
      obtain ⟨d', hd', -, hu, hsl⟩ := hmem' d hd
      exact ⟨d', hd', hsl.trans h1, by rw [hu]; exact h2⟩
  simp only [IsOpen, this]
  exact Iff.rfl

end Users
end WebProxyPanel
