import WebProxyPanel.Rows
import WebProxyPanel.Wp
/-!
# One specification for the statements of each user operation

Run on a committed database, the statements violate no constraint, and what they leave is a
`UserStep` with exactly the firewall calls that the operation goes on to make.
-/

namespace WebProxyPanel
namespace Users
open Table Sql

variable {db : DB} {M : Int → Int → Prop} {D : String → Prop}

/-- The ports belong to slots of active shards. -/
def OnActivePorts (db : DB) (ports : List Int) : Prop :=
  ∀ p ∈ ports, ∃ s ∈ db.slots, OnActive db s ∧ s.port = p

/-! ## Reads and checks -/

theorem cleanName_error {name : String} {e : Err} (h : cleanName name = .error e) :
    e ≠ .integrity := by
  unfold cleanName at h
  simp only at h
  split at h
  · simp only [Except.error.injEq] at h
    rw [← h]
    simp
  · split at h
    · simp only [Except.error.injEq] at h
      rw [← h]
      simp
    · simp at h

theorem wp_liftExcept {α : Type} {x : Except Err α} {Q : α → DB → Prop}
    (he : ∀ e, x = .error e → e ≠ .integrity) (h : ∀ a, Q a db) : (liftExcept x).wp D Q db := by
  cases x with
  | ok a => exact wp.pure (h a)
  | error e => exact wp.raise (he e rfl)

theorem wp_cleanName {name : String} {Q : String → DB → Prop} (h : ∀ n, Q n db) :
    (liftExcept (cleanName name)).wp D Q db :=
  wp_liftExcept (fun _ => cleanName_error) h

theorem toInt_error {v : Value} {e : Err} (h : v.toInt = .error e) : e ≠ .integrity := by
  rintro rfl
  cases v with
  | float d =>
    simp only [Value.toInt] at h
    split at h <;> simp at h
    split at h <;> simp at h
  | str s =>
    simp only [Value.toInt] at h
    split at h <;> simp at h
  | _ => simp [Value.toInt] at h

theorem wp_user {userId : Int} {Q : User → DB → Prop} (h : ∀ u ∈ db.users, u.id = userId → Q u db) :
    (user userId).wp D Q db := by
  refine wp.bind (wp.query (wp.orRaise (by simp) fun u hu => ?_))
  have hid := List.find?_some hu
  exact h u (List.mem_of_find?_eq_some hu) (by simpa using hid)

theorem wp_device {deviceId : Int} {Q : Device × Slot → DB → Prop}
    (h : ∀ d ∈ db.devices, ∀ s ∈ db.slots, d.id = deviceId → d.slotId = s.id → Q (d, s) db) :
    (device deviceId).wp D Q db := by
  refine wp.bind (wp.query (wp.orRaise (by simp) fun x hx => ?_))
  have hid := List.find?_some hx
  have hm := mem_innerJoin.1 (List.mem_of_find?_eq_some hx)
  simp only [decide_eq_true_eq] at hid hm
  exact h x.1 hm.1 x.2 hm.2.1 hid hm.2.2.symm

theorem wp_maxDevices {u : User} {Q : Int → DB → Prop} (h : ∀ n, Q n db) :
    (maxDevices u).wp D Q db := by
  unfold maxDevices
  split
  · exact wp.pure (h _)
  · refine wp.bind (wp.mono (Q := fun _ db' => db' = db) ?_ fun v db' hdb => ?_)
    · refine wp.bind (wp.query ?_)
      cases db.settings.lookup "default_max_devices" with
      | some v => exact wp.pure rfl
      | none => exact wp.orRaise (by simp) fun _ _ => rfl
    · rw [hdb]
      exact wp_liftExcept (fun _ => toInt_error) h

/-- The journal entry that ends a group of statements. -/
theorem wp_logEvent {db₀ : DB} {cs : List FwCall} (h : UserStep M db₀ cs db) {kind : String}
    {userId : Option Int} {details : String} {Q : Unit → DB → Prop}
    (hQ : ∀ ts, UserStep M db₀ cs (DB.addEvent ts kind userId details db) →
      Q () (DB.addEvent ts kind userId details db)) :
    (logEvent kind userId details).wp D Q db := by
  refine wp.bind (wp.now fun ts => ?_)
  have hstep := h.trans (userStep_addEvent h.inv ts kind userId details)
  rw [List.append_nil] at hstep
  exact wp.execute hstep.inv.consistent (hQ ts hstep)

theorem enabled_ne_zero (h : Inv db) {u : User} (hu : u ∈ db.users) :
    u.enabled ≠ 0 ↔ u.enabled = 1 := by
  rcases h.enabledBit u hu with h0 | h1
  · simp [h0]
  · simp [h1]

/-! ## Slots -/

/-- `take_free_slot` finds a free slot of an active shard and marks it. -/
theorem wp_takeFreeSlot (h : db.Consistent) {device : Option Int} {Q : Slot → DB → Prop}
    (hQ : ∀ s ∈ db.slots, s.status = .free → OnActive db s →
      Q { s with status := .assigned, deviceId := device } (setSlot s.id .assigned device db)) :
    (takeFreeSlot device).wp D Q db := by
  refine wp.bind (wp.query (wp.bind (wp.orRaise (by simp) fun s hs => ?_)))
  -- the first row in the order of ids is one of the rows of the join
  have hmem : s ∈ db.slots ∧ s.status = .free ∧ OnActive db s := by
    simp only [firstFree, Option.map_eq_some_iff] at hs
    obtain ⟨x, hx, rfl⟩ := hs
    have hx' := mem_orderBy.1 (List.mem_of_mem_head? hx)
    simp only [List.mem_filter, slotsWithShard, mem_innerJoin, Bool.and_eq_true, decide_eq_true_eq]
      at hx'
    exact ⟨hx'.1.1, hx'.2.1, x.2, hx'.1.2.1, hx'.1.2.2, hx'.2.2⟩
  obtain ⟨hm, hfree, hact⟩ := hmem
  refine wp.bind (wp.execute (consistent_setSlot h s.id .assigned device) (wp.bind (wp.query ?_)))
  have hfind : (setSlot s.id .assigned device db).slots.find? (fun x => decide (x.id = s.id)) =
      some { s with status := .assigned, deviceId := device } := by
    have hin : { s with status := .assigned, deviceId := device } ∈
        (setSlot s.id .assigned device db).slots :=
      mem_setSlot.2 ⟨s, hm, by rw [if_pos rfl]⟩
    obtain ⟨x, hx⟩ := Option.isSome_iff_exists.1
      (List.find?_isSome (p := fun x : Slot => decide (x.id = s.id)) |>.2 ⟨_, hin, by simp⟩)
    rw [hx]
    have hids := (consistent_setSlot h s.id .assigned device).slotId
    have hxid : x.id = s.id := by simpa using List.find?_some hx
    exact congrArg some (eq_of_key hids (List.mem_of_find?_eq_some hx) hin hxid)
  refine wp.orRaise (by simp) fun row hrow => ?_
  have : some row = some { s with status := .assigned, deviceId := device } := hrow.symm.trans hfind
  rw [Option.some.inj this]
  exact hQ s hm hfree hact

/-- `_attach_device` gives the user a device on a clean slot. -/
theorem wp_attachDevice (h : Inv db) {u : User} (hu : u ∈ db.users) {name : Option String}
    {createdBy : DeviceBy} {Q : Int × Int → DB → Prop}
    (hQ : ∀ s ∈ db.slots, OnActive db s → ∀ d : Device,
      UserStep M db (if u.enabled = 1 then unblockCalls [s.port] else
        []) (attach d db) → Q (d.id, s.port) (attach d db)) :
    (attachDevice u.id name createdBy).wp D Q db := by
  refine wp.bind (wp_takeFreeSlot h.consistent fun s hs hfree hact => ?_)
  refine wp.bind (wp.query ?_)
  refine wp.bind (wp.mono (Q := fun _ db' => db' = setSlot s.id .assigned none db) ?_ fun deviceName
    db' hdb => ?_)
  · unfold deviceNameOf
    split
    · split
      · exact wp.pure rfl
      · exact wp_cleanName fun _ => rfl
    · exact wp.pure rfl
  · rw [hdb]
    refine wp.bind (wp.now fun ts => wp.bind (wp.query ?_))
    generalize hd : (⟨nextRowid (db.devices.map (·.id)), u.id, deviceName, s.id, ts, createdBy⟩ :
      Device) = d
    have hdid : nextRowid ((setSlot s.id .assigned none db).devices.map (·.id)) = d.id := by
      rw [← hd]; rfl
    have hds : d.slotId = s.id := by rw [← hd]
    have hdu : d.userId = u.id := by rw [← hd]
    have hdid' : d.id = nextRowid (db.devices.map (·.id)) := by rw [← hd]
    have hstep := userStep_attach (M := M) h hs hfree hact hds hdid' hu hdu
    have hc := consistent_addDeviceRow h hs (by rw [hfree]; decide) hds hdid'
      (by rw [hdu]; exact List.mem_map_of_mem hu) .assigned none
    rw [hdid, show (⟨d.id, u.id, deviceName, s.id, ts, createdBy⟩ : Device) = d by rw [← hd]]
    refine wp.bind (wp.execute hc ?_)
    -- the two updates of the slot's row together are the one of `attach`
    have htwo : DB.updateSlot s.id (fun s => { s with deviceId := some d.id })
        (addDeviceRow d (setSlot s.id .assigned none db)) = attach d db := by
      unfold attach
      rw [hds]
      simp only [DB.updateSlot, addDeviceRow, setSlot, DB.mk.injEq, true_and, and_true]
      refine update_update ?_ _
      intro a ha
      exact ha
    refine wp.bind (wp.execute (by rw [htwo]; exact hstep.inv.consistent) (wp.pure ?_))
    rw [htwo]
    exact hQ s hs hact d hstep

/-! ## Operations -/

theorem createUserRows_spec (h : Inv db) (a : NewUser) (name : String) (createdBy : CreatedBy)
    (reset : Reset) (timestamp : Int) :
    (createUserRows a name createdBy reset timestamp).wp D
      (fun r db' => UserStep M db (unblockCalls [r.2.2]) db' ∧ OnActivePorts db [r.2.2]) db := by
  refine wp.bind (wp.query ?_)
  by_cases ht : tgIdTaken a.tgId none db = true
  · rw [if_pos ht]
    exact wp.raise (by simp)
  · rw [if_neg ht]
    refine wp.bind (wp.query ?_)
    generalize hu : a.row (nextRowid (db.users.map (·.id))) name createdBy reset timestamp = u
    have hid : u.id = nextRowid (db.users.map (·.id)) := by rw [← hu]; rfl
    have htg : tgIdTaken u.tgId none db = false := by rw [← hu]; exact eq_false_of_ne_true ht
    have hen : u.enabled = 1 := by rw [← hu]; rfl
    have hstep := userStep_addUser (M := M) h hid htg (.inr hen)
    have hum : u ∈ (addUser u db).users := List.mem_append_right _ (by simp)
    refine wp.bind (wp.execute hstep.inv.consistent (wp.bind ?_))
    rw [← hid]
    refine wp_attachDevice (M := M) hstep.inv hum fun s hs hact d hatt => ?_
    rw [if_pos hen] at hatt
    refine wp.bind (wp_logEvent (hstep.trans hatt) fun ts hlog => wp.pure ⟨hlog, fun p hp => ?_⟩)
    rw [List.mem_singleton.1 hp]
    exact ⟨s, hs, hact, rfl⟩

theorem addDeviceRows_spec (h : Inv db) (userId : Int) (createdBy : DeviceBy) (text : String)
    (name : Option String) :
    (addDeviceRows userId createdBy text name).wp D
      (fun r db' => UserStep M db (if r.1.enabled ≠ 0 then unblockCalls [r.2.2] else []) db' ∧
        OnActivePorts db [r.2.2]) db := by
  refine wp.bind (wp_user fun u hu hid => ?_)
  split
  · exact wp.raise (by simp)
  · refine wp.bind (wp_maxDevices fun limit => wp.bind (wp.query ?_))
    split
    · exact wp.raise (by simp)
    · refine wp.bind ?_
      rw [← hid]
      refine wp_attachDevice (M := M) h hu fun s hs hact d hatt => ?_
      refine wp.bind (wp_logEvent hatt fun ts hlog => wp.pure ⟨?_, fun p hp => ?_⟩)
      · simp only [enabled_ne_zero h hu]
        exact hlog
      · rw [List.mem_singleton.1 hp]
        exact ⟨s, hs, hact, rfl⟩

theorem releaseSlot_wp (h : db.Consistent) {id : Int} {Q : Unit → DB → Prop}
    (hQ : Q () (releaseSlots [id] db)) : (releaseSlot id).wp D Q db := by
  have heq : DB.updateSlot id (fun s => { s with status := .dirty, deviceId := none }) db =
      releaseSlots [id] db := by
    simp only [DB.updateSlot, releaseSlots, List.mem_singleton]
    rfl
  refine wp.execute ?_ ?_
  · rw [heq]
    exact consistent_releaseSlots h [id]
  · rw [heq]
    exact hQ

/-- A device is deleted, and its slot released. -/
theorem userStep_deleteDevice (h : Inv db) {d : Device} (hd : d ∈ db.devices) {s : Slot}
    (hs : s ∈ db.slots) (hds : d.slotId = s.id) :
    UserStep (fun i _ => i = d.id) db (blockCalls [s.port])
      (removeDevice d.id (releaseSlots [d.slotId] db)) := by
  -- the one device with this id, and its slot
  have hpick : db.devices.filter (fun e => decide (e.id = d.id)) = [d] :=
    filter_key_eq h.consistent.deviceId hd
  have heq : removeDevice d.id (releaseSlots [d.slotId] db) =
      detach (fun e => decide (e.id = d.id)) db := by
    unfold detach
    rw [hpick]
    rfl
  rw [heq]
  refine userStep_detach h (fun x hx => ?_) fun e _ he => of_decide_eq_true he
  simp only [List.mem_singleton, decide_eq_true_eq]
  constructor
  · intro hp
    rw [eq_of_key h.consistent.slotPort hx hs hp]
    exact ⟨d, hd, rfl, hds⟩
  · rintro ⟨e, he, heid, hes⟩
    have hed : e = d := eq_of_key h.consistent.deviceId he hd heid
    rw [eq_of_key h.consistent.slotId hx hs (hes.symm.trans (by rw [hed, hds]))]

theorem deleteDeviceRows_spec (h : Inv db) (deviceId : Int) (by_ : String) :
    (deleteDeviceRows deviceId by_).wp D
      (fun port db' => UserStep (fun i _ => i = deviceId) db (blockCalls [port]) db') db := by
  refine wp.bind (wp_device fun d hd s hs hid hds => ?_)
  have hstep := userStep_deleteDevice h hd hs hds
  rw [hid] at hstep
  refine wp.bind (releaseSlot_wp h.consistent (wp.bind (wp.execute hstep.inv.consistent ?_)))
  exact wp.bind (wp_logEvent hstep fun ts hlog => wp.pure hlog)

theorem rotateDeviceRows_spec (h : Inv db) (deviceId : Int) :
    (rotateDeviceRows deviceId).wp D
      (fun r db' => UserStep (fun i _ => i = deviceId) db
        (blockCalls [r.1] ++ if r.2.1.enabled ≠ 0 then unblockCalls [r.2.2] else []) db' ∧
          OnActivePorts db [r.2.2]) db := by
  refine wp.bind (wp_device fun d hd old hold hid hdo => ?_)
  refine wp.bind (wp_user fun u hu huid => ?_)
  refine wp.bind (wp_takeFreeSlot h.consistent fun s hs hfree hact => ?_)
  have hstep : UserStep (fun i _ => i = deviceId) db
      (blockCalls [old.port] ++ if u.enabled ≠ 0 then unblockCalls [s.port] else [])
      (move d.id s.id old.id db) := by
    simp only [enabled_ne_zero h hu]
    exact userStep_move h hd hold hdo hs hfree hact hu huid.symm hid
  have hrel : releaseSlots [d.slotId] (setSlot s.id .assigned (some deviceId) db) =
      setSlot old.id .dirty none (setSlot s.id .assigned (some d.id) db) := by
    simp only [releaseSlots, setSlot, DB.updateSlot, hdo, hid, List.mem_singleton]
    rfl
  refine wp.bind (releaseSlot_wp (consistent_setSlot h.consistent _ _ _) (wp.bind ?_))
  have heq : updateDevice deviceId (fun d => { d with slotId := s.id })
      (releaseSlots [d.slotId] (setSlot s.id .assigned (some deviceId) db)) =
      move d.id s.id old.id db := by
    rw [hrel, ← hid]
    rfl
  refine wp.execute ?_ ?_
  · rw [heq]
    exact hstep.inv.consistent
  · rw [heq]
    refine wp.bind (wp_logEvent hstep fun ts hlog => wp.pure ⟨hlog, fun p hp => ?_⟩)
    rw [List.mem_singleton.1 hp]
    exact ⟨s, hs, hact, rfl⟩

theorem renameDeviceRows_spec (h : Inv db) (deviceId : Int) (name : String) :
    (renameDeviceRows deviceId name).wp D (fun _ db' => UserStep M db [] db') db := by
  refine wp.bind (wp_device fun _ _ _ _ _ _ => wp.bind (wp_cleanName fun n => ?_))
  have hstep := userStep_renameDevice (M := M) h deviceId n
  exact wp.execute hstep.inv.consistent hstep

theorem disableUserRows_spec (h : Inv db) (userId : Int) (reason : Reason) :
    (disableUserRows userId reason).wp D
      (fun r db' => UserStep M db (blockCalls (r.getD [])) db') db := by
  refine wp.bind (wp_user fun u _ _ => ?_)
  split
  · exact wp.pure (.refl h)
  · have hstep := userStep_setFlag (M := M) h userId (f := setDisabled reason) (fun _ => rfl)
      (fun _ => rfl) (b := 0) (fun _ => rfl) (.inl rfl)
    rw [if_neg (by decide)] at hstep
    refine wp.bind (wp.execute hstep.inv.consistent (wp.bind (wp_logEvent hstep fun ts hlog => ?_)))
    exact wp.bind (wp.query (wp.pure hlog))

/-- What enabling a user leaves, by hand or automatically. -/
theorem wp_enable (h : Inv db) (userId : Int) (details : String) :
    (do Sql.execute (updateUser userId setEnabled)
        logEvent "user_enabled" (some userId) details
        let ports ← Sql.query (devicePorts userId)
        pure (some ports) : Sql (Option (List Int))).wp D
      (fun r db' => UserStep M db (unblockCalls (r.getD [])) db' ∧ OnActivePorts db (r.getD []))
        db := by
  have hstep := userStep_setFlag (M := M) h userId (f := setEnabled) (fun _ => rfl)
    (fun _ => rfl) (b := 1) (fun _ => rfl) (.inr rfl)
  rw [if_pos rfl] at hstep
  refine wp.bind (wp.execute hstep.inv.consistent (wp.bind (wp_logEvent hstep fun ts hlog => ?_)))
  exact wp.bind (wp.query (wp.pure ⟨hlog, fun p hp => devicePorts_active h hp⟩))

theorem enableUserRows_spec (h : Inv db) (userId : Int) :
    (enableUserRows userId).wp D
      (fun r db' => UserStep M db (unblockCalls (r.getD [])) db' ∧ OnActivePorts db (r.getD []))
        db := by
  refine wp.bind (wp_user fun u _ _ => ?_)
  split
  · exact wp.pure ⟨.refl h, by simp [OnActivePorts]⟩
  · exact wp_enable h userId ""

theorem maybeReenableRows_spec (h : Inv db) (userId : Int) (reason : Reason) :
    (maybeReenableRows userId reason).wp D
      (fun r db' => UserStep M db (unblockCalls (r.getD [])) db' ∧ OnActivePorts db (r.getD []))
        db := by
  refine wp.bind (wp_user fun u _ _ => ?_)
  split
  · exact wp.pure ⟨.refl h, by simp [OnActivePorts]⟩
  · refine wp.bind (wp.now fun ts => ?_)
    split
    · exact wp.pure ⟨.refl h, by simp [OnActivePorts]⟩
    · exact wp_enable h userId _

/-- One `UPDATE users` of columns that nothing else depends on. -/
theorem wp_updateUser {db₀ : DB} (h : UserStep M db₀ [] db) {id : Int} {f : User → User}
    (hf : ∀ u, (f u).id = u.id ∧ (f u).tgId = u.tgId ∧ (f u).enabled = u.enabled)
    {Q : Unit → DB → Prop} (hQ : ∀ db', UserStep M db₀ [] db' → Q () db') :
    (Sql.execute (updateUser id f)).wp D Q db := by
  have hc := consistent_updateUser h.inv.consistent id (fun u => (hf u).1) fun u => (hf u).2.1
  exact wp.execute hc (hQ _
    (h.trans (userStep_updateUser h.inv (fun u => (hf u).1) (fun u => (hf u).2.2) hc)))

theorem setExpiryRows_spec (h : Inv db) (userId : Int) (expiresAt : Option Int) :
    (setExpiryRows userId expiresAt).wp D (fun _ db' => UserStep M db [] db') db := by
  refine wp.bind (wp_user fun _ _ _ => wp.bind ?_)
  refine wp_updateUser (M := M) (.refl h) ?_ fun db' hstep => ?_
  · exact fun _ => ⟨rfl, rfl, rfl⟩
  · exact wp_logEvent hstep fun _ hlog => hlog

theorem extendRows_spec (userId days : Int) :
    (extendRows userId days).wp D (fun _ db' => db' = db) db :=
  wp.bind (wp_user fun _ _ _ => wp.bind (wp.now fun _ => wp.pure rfl))

theorem setTrafficLimitRows_spec (h : Inv db) (userId : Int) (limit : Option Int) (reset : Reset)
    (text : String) :
    (setTrafficLimitRows userId limit reset text).wp D (fun _ db' => UserStep M db [] db') db := by
  refine wp.bind (wp_user fun _ _ _ => wp.bind ?_)
  refine wp_updateUser (M := M) (.refl h) ?_ fun db' hstep => ?_
  · exact fun _ => ⟨rfl, rfl, rfl⟩
  · exact wp_logEvent hstep fun _ hlog => hlog

/-- A field of `update_profile` other than the Telegram id. -/
theorem wp_updateField {α : Type} {db₀ : DB} (h : UserStep M db₀ [] db) {id : Int}
    {value : Option α} {f : α → User → User}
    (hf : ∀ v u, (f v u).id = u.id ∧ (f v u).tgId = u.tgId ∧ (f v u).enabled = u.enabled)
    {Q : Unit → DB → Prop} (hQ : ∀ db', UserStep M db₀ [] db' → Q () db') :
    (updateField value id f).wp D Q db := by
  cases value with
  | none => exact wp.pure (hQ db h)
  | some v => exact wp_updateUser h (hf v) hQ

theorem updateProfileRows_spec (h : Inv db) (userId : Int) (a : ProfileUpdate) :
    (updateProfileRows userId a).wp D (fun _ db' => UserStep M db [] db') db := by
  refine wp.bind (wp_user fun _ _ _ =>
    wp.bind (wp.mono (Q := fun _ db' => db' = db) ?_ fun name db' hdb => ?_))
  · cases a.name with
    | none => exact wp.pure rfl
    | some n => exact wp.bind (wp_cleanName fun _ => wp.pure rfl)
  rw [hdb]
  refine wp.bind (wp_updateField (M := M) (.refl h) ?_ fun db₁ h₁ => wp.bind (wp.query ?_))
  · exact fun _ _ => ⟨rfl, rfl, rfl⟩
  by_cases ht : tgIdTaken (a.tgId.getD none) (some userId) db₁ = true
  · rw [if_pos ht]
    exact wp.raise (by simp)
  rw [if_neg ht]
  refine wp.bind (wp.mono (Q := fun _ db' => UserStep M db [] db') ?_ fun _ db₂ h₂ => ?_)
  · -- the Telegram id: no other row has the new value
    cases htg : a.tgId with
    | none => exact wp.pure h₁
    | some t =>
      rw [htg] at ht
      have hc := consistent_updateTg
          (f := fun u => { u with tgId := t, tgBotStarted := 0, tgBlockedBot := 0 })
        h₁.inv.consistent userId t (fun _ => rfl) (fun _ => rfl) (eq_false_of_ne_true ht)
      refine wp.execute hc (h₁.trans (userStep_updateUser h₁.inv ?_ ?_ hc))
      · exact fun _ => rfl
      · exact fun _ => rfl
  refine wp.bind (wp_updateField h₂ ?_ fun db₃ h₃ => ?_)
  · exact fun _ _ => ⟨rfl, rfl, rfl⟩
  refine wp.bind (wp_updateField h₃ ?_ fun db₄ h₄ => ?_)
  · exact fun _ _ => ⟨rfl, rfl, rfl⟩
  split
  · exact wp.raise (by simp)
  refine wp.bind (wp_updateField h₄ ?_ fun db₅ h₅ => ?_)
  · exact fun _ _ => ⟨rfl, rfl, rfl⟩
  · exact wp_logEvent h₅ fun _ hlog => hlog

/-- The slots of a list of devices, released one after another. -/
theorem releaseRows_spec (h : db.Consistent) (rows : List Device) :
    (rows.forM fun row : Device => releaseSlot row.slotId).wp D
      (fun _ db' => db' = releaseSlots (rows.map Device.slotId) db) db := by
  refine wp.forM (I := fun pre db' => db' = releaseSlots (pre.map Device.slotId) db)
    (fun pre x post _ db' hdb => ?_) ?_
  · rw [hdb]
    refine releaseSlot_wp (consistent_releaseSlots h _) ?_
    simp only [releaseSlots, DB.mk.injEq, true_and, and_true]
    simp only [update, List.map_map]
    refine List.map_congr_left fun s _ => ?_
    have hid : (released s).id = s.id := rfl
    have htwice : released (released s) = released s := rfl
    simp only [Function.comp_apply, List.map_append, List.mem_append, List.map_cons, List.map_nil,
      List.mem_singleton, decide_eq_true_eq]
    by_cases h1 : s.id ∈ pre.map Device.slotId
    · have h3 : s.id ∈ pre.map Device.slotId ∨ s.id = x.slotId := .inl h1
      rw [if_pos h1, if_pos h3, hid, htwice]
      exact ite_self _
    · by_cases h2 : s.id = x.slotId
      · have h3 : s.id ∈ pre.map Device.slotId ∨ s.id = x.slotId := .inr h2
        rw [if_neg h1, if_pos h2, if_pos h3]
      · have h3 : ¬ (s.id ∈ pre.map Device.slotId ∨ s.id = x.slotId) := not_or.2 ⟨h1, h2⟩
        rw [if_neg h1, if_neg h2, if_neg h3]
  · simp [releaseSlots, update]

theorem deleteUserRows_spec (h : Inv db) (userId : Int) :
    (deleteUserRows userId).wp D
      (fun ports db' => UserStep (fun _ u => u = userId) db (blockCalls ports) db') db := by
  refine wp.bind (wp_user fun _ _ _ => wp.bind (wp.query (wp.bind (wp.query (wp.bind ?_)))))
  refine (releaseRows_spec h.consistent _).mono fun _ db₁ hdb₁ => ?_
  have hstep : UserStep (fun _ u => u = userId) db (blockCalls (devicePorts userId db))
      (detach (fun d => decide (d.userId = userId)) db) := by
    refine userStep_detach h (fun s hs => ?_) fun d _ hd => of_decide_eq_true hd
    rw [port_mem_devicePorts h hs]
    simp
  have heq : removeDevicesOf userId db₁ = detach (fun d => decide (d.userId = userId)) db := by
    rw [hdb₁]
    rfl
  have hno : ∀ d ∈ (detach (fun d => decide (d.userId = userId)) db).devices,
      d.userId ≠ userId := by
    intro d hd
    simpa using (mem_delete.1 hd).2
  refine wp.bind (wp.execute (by rw [heq]; exact hstep.inv.consistent) ?_)
  rw [heq]
  have hstep' := hstep.trans (userStep_removeUser (M := fun _ u => u = userId) hstep.inv hno)
  rw [List.append_nil] at hstep'
  refine wp.bind (wp.execute hstep'.inv.consistent (wp.bind (wp_logEvent hstep' fun ts hlog => ?_)))
  exact wp.pure hlog

end Users
end WebProxyPanel
