import WebProxyPanel.Ends
import WebProxyPanel.Ops
/-!
# What each user operation does to users, devices and the firewall

`Effect` is the abstract transition relation of users.py: for every operation that returns, the new
users and devices, the ids it returns and the firewall calls it makes, exactly. `Op.effect` proves
that the programs follow it, whatever the clock shows and whichever operations fail before.
-/

namespace WebProxyPanel
open Table Effects Users

/-! ## The relation -/

/-- What the state machine of a user depends on. -/
structure Standing where
  id : Int
  enabled : Int
  reason : Option Reason
  expiresAt : Option Int
  limit : Option Int
  up : Int
  down : Int

def User.standing (u : User) : Standing :=
  ⟨u.id, u.enabled, u.disabledReason, u.expiresAt, u.trafficLimitBytes, u.periodUp, u.periodDown⟩

/-- The port of the device's slot. -/
def HasPort (db : DB) (d : Device) (p : Int) : Prop := ∃ s ∈ db.slots, s.id = d.slotId ∧ s.port = p

/-- `_maybe_reenable` lets the user in. -/
def Reenabled (T : Int → Prop) (reason : Reason) (u : User) : Prop :=
  u.enabled = 0 ∧ u.disabledReason = some reason ∧ ∃ t, T t ∧ expired u t = false ∧
    limitReached u = false

/-- `_maybe_reenable` leaves the user as they are. -/
def NotReenabled (T : Int → Prop) (reason : Reason) (u : User) : Prop :=
  u.enabled ≠ 0 ∨ u.disabledReason ≠ some reason ∨ ∃ t, T t ∧
    (expired u t = true ∨ limitReached u = true)

/-- A setter that changes the row by `f` and then may re-enable the user. -/
inductive Setter (T : Int → Prop) (enableNow : Bool) (reason : Reason) (f : User → User)
    (userId : Int) (db db' : DB) :
    List FwCall → Prop
  | reenabled {u : User} : u ∈ db.users → u.id = userId → enableNow = true →
      Reenabled T reason (f u) →
      db'.users = update (fun u => decide (u.id = userId)) (fun u => setEnabled (f u)) db.users →
      db'.devices = db.devices → Setter T enableNow reason f userId db db'
        (unblockCalls (devicePorts userId db))
  | changed {u : User} : u ∈ db.users → u.id = userId →
      (enableNow = true → NotReenabled T reason (f u)) →
      db'.users = update (fun u => decide (u.id = userId)) f db.users →
      db'.devices = db.devices → Setter T enableNow reason f userId db db' []

/-- The ids that an operation returns. -/
structure Ids where
  users : List Int
  devices : List Int

def Ids.none : Ids := ⟨[], []⟩

def withExpiry (e : Option Int) (u : User) : User := { u with expiresAt := e }

def withLimit (limit : Option Int) (reset : Reset) (u : User) : User :=
  { u with trafficLimitBytes := limit, trafficReset := reset }

inductive Effect (T : Int → Prop) (db db' : DB) : Op → Ids → List FwCall → Prop
  | createUser {a : NewUser} {u : User} {d : Device} {p : Int} :
      u.id = nextRowid (db.users.map (·.id)) → u.enabled = 1 → u.disabledReason = none →
      d.id = nextRowid (db.devices.map (·.id)) → d.userId = u.id → HasPort db' d p →
      db'.users = db.users ++ [u] → db'.devices = db.devices ++ [d] →
      Effect T db db' (.createUser a) ⟨[u.id], [d.id]⟩ (unblockCalls [p])
  | addDevice {userId : Int} {createdBy : String} {name : Option String} {u : User}
      {d : Device} {p : Int} :
      u ∈ db.users → u.id = userId → d.id = nextRowid (db.devices.map (·.id)) → d.userId = userId →
        HasPort db' d p →
      db'.users = db.users → db'.devices = db.devices ++ [d] →
      Effect T db db' (.addDevice userId createdBy name) ⟨[], [d.id]⟩
        (if u.enabled ≠ 0 then unblockCalls [p] else [])
  | deleteDevice {deviceId : Int} {by_ : String} {d : Device} {p : Int} : d ∈ db.devices →
      d.id = deviceId →
      db'.users = db.users → db'.devices = delete (fun d => decide (d.id = deviceId)) db.devices →
      Effect T db db' (.deleteDevice deviceId by_) .none (blockCalls [p])
  | rotateDevice {deviceId slotId : Int} {d : Device} {u : User} {old p : Int} : d ∈ db.devices →
      d.id = deviceId →
      u ∈ db.users → u.id = d.userId → HasPort db' { d with slotId := slotId } p →
        db'.users = db.users →
      db'.devices = update (fun d => decide (d.id = deviceId))
        (fun d => { d with slotId := slotId }) db.devices →
      Effect T db db' (.rotateDevice deviceId) .none
        (blockCalls [old] ++ if u.enabled ≠ 0 then unblockCalls [p] else [])
  | renameDevice {deviceId : Int} {name name' : String} : db'.users = db.users →
      db'.devices = update (fun d => decide (d.id = deviceId))
        (fun d => { d with name := name' }) db.devices →
      Effect T db db' (.renameDevice deviceId name) .none []
  | disableUser {userId : Int} {text : String} {reason : Reason} {u : User} :
      reasonOf text = some reason → u ∈ db.users → u.id = userId → u.enabled ≠ 0 →
      db'.users = update (fun u => decide (u.id = userId)) (setDisabled reason) db.users →
        db'.devices = db.devices →
      Effect T db db' (.disableUser userId text) .none (blockCalls (devicePorts userId db))
  | wasDisabled {userId : Int} {text : String} {u : User} : u ∈ db.users → u.id = userId →
      u.enabled = 0 →
      db'.users = db.users → db'.devices = db.devices →
        Effect T db db' (.disableUser userId text) .none []
  | enableUser {userId : Int} {u : User} : u ∈ db.users → u.id = userId → u.enabled = 0 →
      db'.users = update (fun u => decide (u.id = userId)) setEnabled db.users →
        db'.devices = db.devices →
      Effect T db db' (.enableUser userId) .none (unblockCalls (devicePorts userId db))
  | wasEnabled {userId : Int} {u : User} : u ∈ db.users → u.id = userId → u.enabled ≠ 0 →
      db'.users = db.users → db'.devices = db.devices →
        Effect T db db' (.enableUser userId) .none []
  | setExpiry {userId : Int} {expiresAt : Option Int} {enableNow : Bool} {calls : List FwCall} :
      Setter T enableNow .expired (withExpiry expiresAt) userId db db' calls →
      Effect T db db' (.setExpiry userId expiresAt enableNow) .none calls
  | extend {userId days : Int} {enableNow : Bool} {t : Int} {u : User} {calls : List FwCall} :
      T t → 0 < days → u ∈ db.users → u.id = userId →
      Setter T enableNow .expired (withExpiry (some (max t (u.expiresAt.getD 0) + days * day)))
        userId db db' calls →
      Effect T db db' (.extend userId days enableNow) .none calls
  | setTrafficLimit {userId : Int} {limit : Option Int} {text : String} {reset : Reset}
      {enableNow : Bool} {calls : List FwCall} : resetOf text = some reset →
      Setter T enableNow .trafficLimit (withLimit limit reset) userId db db' calls →
      Effect T db db' (.setTrafficLimit userId limit text enableNow) .none calls
  | updateProfile {userId : Int} {a : ProfileUpdate} :
      db'.users.map User.standing = db.users.map User.standing →
      db'.devices = db.devices → Effect T db db' (.updateProfile userId a) .none []
  | deleteUser {userId : Int} {u : User} : u ∈ db.users → u.id = userId →
      db'.users = delete (fun u => decide (u.id = userId)) db.users →
      db'.devices = delete (fun d => decide (d.userId = userId)) db.devices →
      Effect T db db' (.deleteUser userId) .none (blockCalls (devicePorts userId db))

/-- Every new row of the journal is about a user who is there, before or after. -/
def Logs (db db' : DB) : Prop :=
  ∀ e ∈ db'.events, e ∈ db.events ∨ ∃ u, (u ∈ db.users ∨ u ∈ db'.users) ∧ e.userId = some u.id

namespace Op

/-- The operation, with the ids it returns. -/
def ids : Op → P Ids
  | createUser a => (Users.createUser a).bind fun x => .ret ⟨[x.1], [x.2]⟩
  | addDevice userId createdBy name =>
    (Users.addDevice userId createdBy name).bind fun d => .ret ⟨[], [d]⟩
  | op => op.program.bind fun _ => .ret .none

theorem program_eq_ids (op : Op) : op.program = op.ids.bind fun _ => .ret () := by
  cases op with
  | createUser a => simp [program, ids, Prog.bind_assoc]
  | addDevice userId createdBy name => simp [program, ids, Prog.bind_assoc]
  | _ =>
    simp only [ids, Prog.bind_assoc, Prog.ret_bind]
    exact (Prog.bind_ret _).symm

end Op

/-! ## Statements -/

section Rows
variable {T : Int → Prop} {db : DB}

theorem ends_user {userId : Int} {Q : User → DB → Prop}
    (h : ∀ u ∈ db.users, u.id = userId → Q u db) : (user userId).Ends T Q db := by
  refine Sql.Ends.bind (Sql.Ends.query (Sql.Ends.orRaise fun u hu => ?_))
  exact h u (List.mem_of_find?_eq_some hu) (by simpa using List.find?_some hu)

theorem ends_device {deviceId : Int} {Q : Device × Slot → DB → Prop}
    (h : ∀ d ∈ db.devices, ∀ s ∈ db.slots, d.id = deviceId → s.id = d.slotId → Q (d, s) db) :
    (device deviceId).Ends T Q db := by
  refine Sql.Ends.bind (Sql.Ends.query (Sql.Ends.orRaise fun x hx => ?_))
  have hm := mem_innerJoin.1 (List.mem_of_find?_eq_some hx)
  exact h x.1 hm.1 x.2 hm.2.1 (by simpa using List.find?_some hx) (of_decide_eq_true hm.2.2)

theorem ends_logEvent {kind : String} {userId : Option Int} {details : String}
    {Q : Unit → DB → Prop}
    (h : ∀ ts, (DB.addEvent ts kind userId details db).Consistent →
      Q () (DB.addEvent ts kind userId details db)) :
    (logEvent kind userId details).Ends T Q db :=
  Sql.Ends.bind (Sql.Ends.now fun ts _ => Sql.Ends.execute fun hc => h ts hc)

theorem ends_liftExcept {α : Type} {x : Except Err α} {Q : α → DB → Prop} (h : ∀ a, Q a db) :
    (liftExcept x).Ends T Q db := by
  cases x with
  | ok a => exact Sql.Ends.pure (h a)
  | error e => exact Sql.Ends.raise

theorem ends_deviceNameOf {name : Option String} {count : Int} {Q : String → DB → Prop}
    (h : ∀ n, Q n db) : (deviceNameOf name count).Ends T Q db := by
  unfold deviceNameOf
  split
  · split
    · exact Sql.Ends.pure (h _)
    · exact ends_liftExcept h
  · exact Sql.Ends.pure (h _)

theorem ends_maxDevices {u : User} {Q : Int → DB → Prop} (h : ∀ n, Q n db) :
    (maxDevices u).Ends T Q db := by
  unfold maxDevices
  split
  · exact Sql.Ends.pure (h _)
  · refine Sql.Ends.bind (Sql.Ends.mono (Q := fun _ db' => db' = db) ?_ fun v db' hdb => ?_)
    · refine Sql.Ends.bind (Sql.Ends.query ?_)
      cases db.settings.lookup "default_max_devices" with
      | some v => exact Sql.Ends.pure rfl
      | none => exact Sql.Ends.orRaise fun _ _ => rfl
    · subst hdb
      exact ends_liftExcept h

/-- Only slots change. -/
structure SlotsOnly (db db' : DB) : Prop where
  users : db'.users = db.users
  devices : db'.devices = db.devices
  events : db'.events = db.events

theorem ends_takeFreeSlot {deviceId : Option Int} {Q : Slot → DB → Prop}
    (h : ∀ s db', SlotsOnly db db' → s ∈ db'.slots → Q s db') :
    (takeFreeSlot deviceId).Ends T Q db := by
  refine Sql.Ends.bind (Sql.Ends.query (Sql.Ends.bind (Sql.Ends.orRaise fun row _ => ?_)))
  refine Sql.Ends.bind (Sql.Ends.execute fun _ =>
    Sql.Ends.bind (Sql.Ends.query (Sql.Ends.orRaise fun s hs => ?_)))
  exact h s _ ⟨rfl, rfl, rfl⟩ (List.mem_of_find?_eq_some hs)

theorem mem_updateSlot_port {db : DB} {id : Int} {f : Slot → Slot}
    (hf : ∀ s, (f s).id = s.id ∧ (f s).port = s.port) {s : Slot} (hs : s ∈ db.slots) :
    ∃ s' ∈ (DB.updateSlot id f db).slots, s'.id = s.id ∧ s'.port = s.port := by
  refine ⟨_, mem_update.2 ⟨s, hs, rfl⟩, ?_⟩
  split
  · exact hf s
  · exact ⟨rfl, rfl⟩

theorem ends_releaseSlot {slotId : Int} {Q : Unit → DB → Prop}
    (h : ∀ db', db'.Consistent → SlotsOnly db db' →
      (∀ s ∈ db.slots, ∃ s' ∈ db'.slots, s'.id = s.id ∧ s'.port = s.port) → Q () db') :
    (releaseSlot slotId).Ends T Q db :=
  Sql.Ends.execute fun hc => h _ hc ⟨rfl, rfl, rfl⟩ fun _ hs =>
    mem_updateSlot_port (f := fun s => { s with status := .dirty, deviceId := none })
      (fun _ => ⟨rfl, rfl⟩) hs

/-- `_attach_device` appends one device. -/
theorem ends_attachDevice {userId : Int} {name : Option String} {createdBy : DeviceBy}
    {Q : Int × Int → DB → Prop}
    (h : ∀ d db' p, d.id = nextRowid (db.devices.map (·.id)) → d.userId = userId → HasPort db' d p →
      db'.users = db.users → db'.devices = db.devices ++ [d] → db'.events = db.events →
        Q (d.id, p) db') :
    (attachDevice userId name createdBy).Ends T Q db := by
  refine Sql.Ends.bind (ends_takeFreeSlot fun s db₁ hs hmem => ?_)
  refine Sql.Ends.bind (Sql.Ends.query (Sql.Ends.bind (ends_deviceNameOf fun deviceName => ?_)))
  refine Sql.Ends.bind (Sql.Ends.now fun ts _ => Sql.Ends.bind (Sql.Ends.query ?_))
  refine Sql.Ends.bind (Sql.Ends.execute fun _ =>
    Sql.Ends.bind (Sql.Ends.execute fun _ => Sql.Ends.pure ?_))
  generalize hid : nextRowid (db₁.devices.map (·.id)) = deviceId
  rw [hs.devices] at hid
  refine h ⟨deviceId, userId, deviceName, s.id, ts, createdBy⟩ _ s.port hid.symm rfl ?_
    hs.users ?_ hs.events
  · have hadded : s ∈ (addDeviceRow ⟨deviceId, userId, deviceName, s.id, ts, createdBy⟩
        db₁).slots := hmem
    exact mem_updateSlot_port (f := fun s => { s with deviceId := some deviceId })
      (fun _ => ⟨rfl, rfl⟩) hadded
  · simp [DB.updateSlot, addDeviceRow, hs.devices]

/-! ## Operations -/

/-- What the statements and calls of an operation are to leave. -/
def Leaves (T : Int → Prop) (op : Op) (D : DB) (ids : Ids) (db' : DB) (calls : List FwCall) :
    Prop :=
  Effect T D db' op ids calls ∧ Logs D db'

theorem Logs.one {db' : DB} {e : Event} {u : User} (hu : u ∈ db.users ∨ u ∈ db'.users)
    (he : e.userId = some u.id) (h : db'.events = db.events ++ [e]) : Logs db db' := by
  intro x hx
  rw [h, List.mem_append, List.mem_singleton] at hx
  rcases hx with hx | rfl
  · exact .inl hx
  · exact .inr ⟨u, hu, he⟩

theorem ends_createUser (a : NewUser) (name : String) (createdBy : CreatedBy) (reset : Reset)
    (timestamp : Int) (D : DB) :
    Ends T (do
      let (userId, deviceId, port) ← sql (createUserRows a name createdBy reset timestamp)
      unblock [port]
      pure (userId, deviceId)) (fun x => Leaves T (.createUser a) D ⟨[x.1], [x.2]⟩) D [] := by
  refine Ends.bind (Ends.sql ?_)
  refine Sql.Ends.bind (Sql.Ends.query ?_)
  split
  · exact Sql.Ends.raise
  refine Sql.Ends.bind (Sql.Ends.query (Sql.Ends.bind (Sql.Ends.execute fun _ => Sql.Ends.bind ?_)))
  refine ends_attachDevice fun d db₁ p hid huser hport husers hdevices hevents => ?_
  refine Sql.Ends.bind (ends_logEvent fun ts _ => Sql.Ends.pure ?_)
  refine Ends.bind (Ends.unblock ?_)
  generalize hu : a.row (nextRowid (D.users.map (·.id))) name createdBy reset
    timestamp = u at husers
  have huid : u.id = nextRowid (D.users.map (·.id)) := by rw [← hu]; rfl
  have hrow : db₁.users = D.users ++ [u] := husers
  rw [← huid]
  refine ⟨.createUser huid (by rw [← hu]; rfl) (by rw [← hu]; rfl) hid (huser.trans huid.symm) hport
    hrow hdevices, ?_⟩
  refine Logs.one (u := u) (.inr ?_) rfl (congrArg (· ++ _) hevents)
  show u ∈ db₁.users
  rw [hrow]
  simp

theorem ends_addDevice (userId : Int) (createdBy : DeviceBy) (text : String) (name : Option String)
    (D : DB) :
    Ends T (do
      let (u, deviceId, port) ← sql (addDeviceRows userId createdBy text name)
      Prog.runIf (u.enabled ≠ 0) (unblock [port])
      pure deviceId) (fun x => Leaves T (.addDevice userId text name) D ⟨[], [x]⟩) D [] := by
  refine Ends.bind (Ends.sql (Sql.Ends.bind (ends_user fun u hu huid => ?_)))
  split
  · exact Sql.Ends.raise
  refine Sql.Ends.bind (ends_maxDevices fun limit => Sql.Ends.bind (Sql.Ends.query ?_))
  split
  · exact Sql.Ends.raise
  refine Sql.Ends.bind (ends_attachDevice fun d db₁ p hid huser hport husers hdevices hevents => ?_)
  refine Sql.Ends.bind (ends_logEvent fun ts _ => Sql.Ends.pure ?_)
  generalize hdb : DB.addEvent ts "device_added" (some userId) _ db₁ = db'
  have hlogs : Logs D db' := by
    subst hdb huid
    exact Logs.one (.inl hu) rfl (congrArg (· ++ _) hevents)
  have heffect : Effect T D db' (.addDevice userId text name) ⟨[], [d.id]⟩
      (if u.enabled ≠ 0 then unblockCalls [p] else []) := by
    subst hdb
    exact .addDevice hu huid hid huser hport husers hdevices
  refine Ends.bind (Ends.runIf (fun hen => Ends.unblock ?_) fun hen => ?_)
  · rw [if_pos hen] at heffect
    exact ⟨heffect, hlogs⟩
  · rw [if_neg hen] at heffect
    exact ⟨heffect, hlogs⟩

/-- A device's user, by the foreign key. -/
theorem exists_user_of_device (h : db.Consistent) {d : Device} (hd : d ∈ db.devices) :
    ∃ u ∈ db.users, u.id = d.userId := by
  obtain ⟨u, hu, hid⟩ := List.mem_map.1 (h.deviceUser d hd)
  exact ⟨u, hu, hid⟩

theorem ends_deleteDevice (deviceId : Int) (by_ : String) (D : DB) :
    Ends T (do
      let port ← sql (deleteDeviceRows deviceId by_)
      block [port]) (fun _ => Leaves T (.deleteDevice deviceId by_) D .none) D [] := by
  refine Ends.bind (Ends.sql (Sql.Ends.bind (ends_device fun d hd s hs hid hslot => ?_)))
  refine Sql.Ends.bind (ends_releaseSlot fun db₁ hc h₁ _ =>
    Sql.Ends.bind (Sql.Ends.execute fun _ => ?_))
  refine Sql.Ends.bind (ends_logEvent fun ts _ =>
    Sql.Ends.pure (Ends.block ⟨.deleteDevice hd hid h₁.users ?_, ?_⟩))
  · exact congrArg _ h₁.devices
  · obtain ⟨u, hu, huid⟩ := exists_user_of_device hc (h₁.devices.symm ▸ hd)
    rw [h₁.users] at hu
    exact Logs.one (.inl hu) (congrArg some huid.symm) (congrArg (· ++ _) h₁.events)

theorem ends_rotateDevice (deviceId : Int) (D : DB) :
    Ends T (do
      let (old, u, port) ← sql (rotateDeviceRows deviceId)
      block [old]
      Prog.runIf (u.enabled ≠ 0) (unblock [port]))
        (fun _ => Leaves T (.rotateDevice deviceId) D .none) D [] := by
  refine Ends.bind (Ends.sql (Sql.Ends.bind (ends_device fun d hd s hs hid hslot => ?_)))
  refine Sql.Ends.bind (ends_user fun u hu huid =>
    Sql.Ends.bind (ends_takeFreeSlot fun slot db₁ h₁ hmem => ?_))
  refine Sql.Ends.bind (ends_releaseSlot fun db₂ _ h₂ hports =>
    Sql.Ends.bind (Sql.Ends.execute fun _ => ?_))
  refine Sql.Ends.bind (ends_logEvent fun ts _ => Sql.Ends.pure (Ends.bind (Ends.block ?_)))
  generalize hdb : DB.addEvent ts "device_rotated" (some d.userId) _ _ = db'
  have hlogs : Logs D db' := by
    subst hdb
    exact Logs.one (.inl hu) (congrArg some huid.symm)
      (congrArg (· ++ _) (h₂.events.trans h₁.events))
  have heffect : Effect T D db' (.rotateDevice deviceId) .none
      (blockCalls [s.port] ++ if u.enabled ≠ 0 then unblockCalls [slot.port] else []) := by
    subst hdb
    refine .rotateDevice hd hid hu huid (hports slot hmem) (h₂.users.trans h₁.users) ?_
    exact congrArg _ (h₂.devices.trans h₁.devices)
  refine Ends.runIf (fun hen => Ends.unblock ?_) fun hen => ?_
  · rw [if_pos hen] at heffect
    exact ⟨heffect, hlogs⟩
  · rw [if_neg hen, List.append_nil] at heffect
    exact ⟨heffect, hlogs⟩

theorem ends_renameDevice (deviceId : Int) (name : String) (D : DB) :
    Ends T (sql (renameDeviceRows deviceId name))
      (fun _ => Leaves T (.renameDevice deviceId name) D .none) D [] := by
  refine Ends.sql (Sql.Ends.bind (ends_device fun d hd s hs hid hslot => ?_))
  refine Sql.Ends.bind (ends_liftExcept fun name' => Sql.Ends.execute fun _ =>
    ⟨.renameDevice rfl rfl, ?_⟩)
  exact fun e he => .inl he

theorem ends_disableUser (userId : Int) {text : String} {reason : Reason}
    (hreason : reasonOf text = some reason) (D : DB) :
    Ends T (do
      match ← sql (disableUserRows userId reason) with
      | none => pure false
      | some ports => do
        block ports
        pure true) (fun _ => Leaves T (.disableUser userId text) D .none) D [] := by
  refine Ends.bind (Ends.sql (Sql.Ends.bind (ends_user fun u hu huid => ?_)))
  split
  · rename_i h0
    exact Sql.Ends.pure ⟨.wasDisabled hu huid h0 rfl rfl, fun e he => .inl he⟩
  · rename_i hen
    refine Sql.Ends.bind (Sql.Ends.execute fun _ => Sql.Ends.bind (ends_logEvent fun ts _ => ?_))
    refine Sql.Ends.bind (Sql.Ends.query (Sql.Ends.pure (Ends.bind (Ends.block ⟨?_, ?_⟩))))
    · exact .disableUser hreason hu huid hen rfl rfl
    · exact Logs.one (.inl hu) (congrArg some huid.symm) rfl

theorem ends_enableUser (userId : Int) (D : DB) :
    Ends T (do
      match ← sql (enableUserRows userId) with
      | none => pure false
      | some ports => do
        unblock ports
        pure true) (fun _ => Leaves T (.enableUser userId) D .none) D [] := by
  refine Ends.bind (Ends.sql (Sql.Ends.bind (ends_user fun u hu huid => ?_)))
  split
  · rename_i hen
    exact Sql.Ends.pure ⟨.wasEnabled hu huid hen rfl rfl, fun e he => .inl he⟩
  · rename_i h0
    refine Sql.Ends.bind (Sql.Ends.execute fun _ => Sql.Ends.bind (ends_logEvent fun ts _ => ?_))
    refine Sql.Ends.bind (Sql.Ends.query (Sql.Ends.pure (Ends.bind (Ends.unblock ⟨?_, ?_⟩))))
    · exact .enableUser hu huid (not_not.1 h0) rfl rfl
    · exact Logs.one (.inl hu) (congrArg some huid.symm) rfl

/-! ## Setters -/

/-- The row has been changed, and nothing else that matters here. -/
structure Changed (f : User → User) (userId : Int) (D db : DB) : Prop where
  users : db.users = update (fun u => decide (u.id = userId)) f D.users
  devices : db.devices = D.devices
  slots : db.slots = D.slots
  logs : Logs D db

theorem devicePorts_congr {db db' : DB} (hd : db'.devices = db.devices) (hs : db'.slots = db.slots)
    (userId : Int) : devicePorts userId db' = devicePorts userId db := by
  unfold devicePorts devicesWithSlot
  rw [hd, hs]

theorem Logs.trans {db₀ db db' : DB} (h : Logs db₀ db) (h' : Logs db db')
    (hids : db'.users.map (·.id) = db₀.users.map (·.id))
    (hids' : db.users.map (·.id) = db₀.users.map (·.id)) : Logs db₀ db' := by
  intro e he
  rcases h' e he with he | ⟨u, hu, huid⟩
  · rcases h e he with he | ⟨u, hu, huid⟩
    · exact .inl he
    · have hm : u.id ∈ db₀.users.map (·.id) := by
        rcases hu with hu | hu
        · exact List.mem_map_of_mem hu
        · exact hids' ▸ List.mem_map_of_mem hu
      obtain ⟨u₀, hu₀, hid⟩ := List.mem_map.1 hm
      exact .inr ⟨u₀, .inl hu₀, by rw [huid, hid]⟩
  · have hm : u.id ∈ db₀.users.map (·.id) := by
      rcases hu with hu | hu
      · exact hids' ▸ List.mem_map_of_mem hu
      · exact hids ▸ List.mem_map_of_mem hu
    obtain ⟨u₀, hu₀, hid⟩ := List.mem_map.1 hm
    exact .inr ⟨u₀, .inl hu₀, by rw [huid, hid]⟩

theorem ids_update {f : User → User} (hf : ∀ u, (f u).id = u.id) (userId : Int) (us : List User) :
    (update (fun u => decide (u.id = userId)) f us).map (·.id) = us.map (·.id) :=
  map_update (·.id) (fun u _ => hf u) us

/-- `_maybe_reenable`, after the row has been changed. -/
theorem ends_maybeReenable {f : User → User} (hf : ∀ u, (f u).id = u.id) {userId : Int}
    {reason : Reason} {D : DB} (h : Changed f userId D db) : Ends T (maybeReenable userId reason)
      (fun _ db' calls => Setter T true reason f userId D db' calls ∧ Logs D db') db [] := by
  refine Ends.bind (Ends.sql (Sql.Ends.bind (ends_user fun x hx hxid => ?_)))
  have hids : db.users.map (·.id) = D.users.map (·.id) := by rw [h.users, ids_update hf]
  -- the row that is read is the changed row
  obtain ⟨u, hu, huid, rfl⟩ : ∃ u ∈ D.users, u.id = userId ∧ x = f u := by
    rw [h.users] at hx
    obtain ⟨u, hu, he⟩ := mem_update.1 hx
    by_cases huid : u.id = userId
    · exact ⟨u, hu, huid, by rw [← he, if_pos (decide_eq_true huid)]⟩
    · rw [if_neg (by simpa using huid)] at he
      exact absurd (he ▸ hxid) huid
  split
  · rename_i hkeep
    refine Sql.Ends.pure ⟨.changed hu huid (fun _ => ?_) h.users h.devices, h.logs⟩
    exact hkeep.elim .inl fun hr => .inr (.inl hr)
  rename_i hstate
  rw [not_or, not_not, not_not] at hstate
  refine Sql.Ends.bind (Sql.Ends.now fun t ht => ?_)
  split
  · rename_i hcause
    refine Sql.Ends.pure ⟨.changed hu huid (fun _ => .inr (.inr ⟨t, ht, ?_⟩)) h.users h.devices,
      h.logs⟩
    simpa using hcause
  rename_i hcause
  rw [Bool.or_eq_true, not_or, Bool.not_eq_true, Bool.not_eq_true] at hcause
  refine Sql.Ends.bind (Sql.Ends.execute fun _ => Sql.Ends.bind (ends_logEvent fun ts _ => ?_))
  refine Sql.Ends.bind (Sql.Ends.query (Sql.Ends.pure (Ends.unblock ?_)))
  generalize hdb : DB.addEvent ts "user_enabled" (some userId) _ _ = db'
  have husers : db'.users = update (fun u => decide (u.id = userId))
      (fun u => setEnabled (f u)) D.users := by
    subst hdb
    change update _ setEnabled db.users = _
    rw [h.users, update_update]
    intro a ha
    simpa [hf] using ha
  have hdevices : db'.devices = D.devices := by
    subst hdb
    exact h.devices
  have hslots : db'.slots = D.slots := by
    subst hdb
    exact h.slots
  have hlogs : Logs D db' := by
    refine h.logs.trans (Logs.one (u := f u) (.inl hx) (congrArg some hxid.symm)
      (by subst hdb; rfl)) ?_ hids
    rw [husers]
    exact ids_update (f := fun u => setEnabled (f u)) hf userId D.users
  show Setter T true reason f userId D db' ([] ++ unblockCalls (devicePorts userId db')) ∧
      Logs D db'
  rw [devicePorts_congr hdevices hslots]
  exact ⟨.reenabled hu huid rfl ⟨hstate.1, hstate.2, t, ht, hcause⟩ husers hdevices, hlogs⟩

theorem ends_setter {f : User → User} (hf : ∀ u, (f u).id = u.id) {userId : Int} {reason : Reason}
    {enableNow : Bool} {m : Sql Unit} {D : DB}
    (hm : m.Ends T (fun _ db => (∃ u ∈ D.users, u.id = userId) ∧ Changed f userId D db) D) :
    Ends T (do
      sql m
      Prog.runIf enableNow (maybeReenable userId reason))
      (fun _ db' calls => Setter T enableNow reason f userId D db' calls ∧ Logs D db') D [] := by
  refine Ends.bind (Ends.sql (hm.mono fun _ db h => ?_))
  obtain ⟨⟨u, hu, huid⟩, h⟩ := h
  refine Ends.runIf (fun hen => ?_) fun hen => ?_
  · subst hen
    exact ends_maybeReenable hf h
  · exact ⟨.changed hu huid (fun he => absurd he hen) h.users h.devices, h.logs⟩

theorem ends_setExpiryRows (userId : Int) (expiresAt : Option Int) (D : DB) :
    (setExpiryRows userId expiresAt).Ends T
      (fun _ db => (∃ u ∈ D.users, u.id = userId) ∧ Changed (withExpiry expiresAt) userId D db)
        D := by
  refine Sql.Ends.bind (ends_user fun u hu huid => Sql.Ends.bind (Sql.Ends.execute fun _ => ?_))
  refine ends_logEvent fun ts _ => ⟨⟨u, hu, huid⟩, rfl, rfl, rfl, ?_⟩
  exact Logs.one (.inl hu) (congrArg some huid.symm) rfl

theorem ends_setTrafficLimitRows (userId : Int) (limit : Option Int) (reset : Reset) (text : String)
    (D : DB) :
    (setTrafficLimitRows userId limit reset text).Ends T
      (fun _ db => (∃ u ∈ D.users, u.id = userId) ∧ Changed (withLimit limit reset) userId D db)
        D := by
  refine Sql.Ends.bind (ends_user fun u hu huid => Sql.Ends.bind (Sql.Ends.execute fun _ => ?_))
  refine ends_logEvent fun ts _ => ⟨⟨u, hu, huid⟩, rfl, rfl, rfl, ?_⟩
  exact Logs.one (.inl hu) (congrArg some huid.symm) rfl

theorem ends_setExpiry (userId : Int) (expiresAt : Option Int) (enableNow : Bool) (D : DB) :
    Ends T (do
      sql (setExpiryRows userId expiresAt)
      Prog.runIf enableNow (maybeReenable userId .expired)) (fun _ db' calls =>
        Setter T enableNow .expired (withExpiry expiresAt) userId D db' calls ∧ Logs D db') D [] :=
  ends_setter (f := withExpiry expiresAt) (fun _ => rfl) (ends_setExpiryRows userId expiresAt D)

theorem ends_extend {userId days : Int} (hdays : 0 < days) (enableNow : Bool) (D : DB) :
    Ends T (do
      let expiresAt ← sql (extendRows userId days)
      setExpiry userId (some expiresAt) enableNow
      pure expiresAt) (fun _ => Leaves T (.extend userId days enableNow) D .none) D [] := by
  refine Ends.bind (Ends.sql
    (Sql.Ends.bind (ends_user fun u hu huid => Sql.Ends.bind (Sql.Ends.now fun t ht => ?_))))
  refine Sql.Ends.pure (Ends.bind
    (Ends.change ((ends_setExpiry userId _ enableNow D).mono fun _ db' calls h => ?_)))
  exact ⟨.extend ht hdays hu huid h.1, h.2⟩

theorem ends_setTrafficLimit {userId : Int} {limit : Option Int} {text : String} {reset : Reset}
    (hreset : resetOf text = some reset) (enableNow : Bool) (D : DB) :
    Ends T (do
      sql (setTrafficLimitRows userId limit reset text)
      Prog.runIf enableNow (maybeReenable userId .trafficLimit))
      (fun _ => Leaves T (.setTrafficLimit userId limit text enableNow) D .none) D [] := by
  exact (ends_setter (f := withLimit limit reset) (fun _ => rfl)
    (ends_setTrafficLimitRows userId limit reset text D)).mono
    fun _ db' calls h => ⟨.setTrafficLimit hreset h.1, h.2⟩

/-! ## Profile, and the end of a user -/

/-- What `update_profile` keeps up to its last statement. -/
structure KeepsStanding (D db : DB) : Prop where
  users : db.users.map User.standing = D.users.map User.standing
  devices : db.devices = D.devices
  events : db.events = D.events

theorem ends_updateField {α : Type} {value : Option α} {userId : Int} {f : α → User → User}
    (hf : ∀ a u, (f a u).standing = u.standing) {D : DB} (h : KeepsStanding D db) :
    (updateField value userId f).Ends T (fun _ db' => KeepsStanding D db') db := by
  cases value with
  | none => exact Sql.Ends.pure h
  | some a =>
    refine Sql.Ends.execute fun _ => ⟨?_, h.devices, h.events⟩
    exact (map_update User.standing (fun u _ => hf a u) db.users).trans h.users

theorem ends_cleanField {name : Option String} {Q : Option String → DB → Prop} (h : ∀ n, Q n db) :
    (cleanField name).Ends T Q db := by
  cases name with
  | none => exact Sql.Ends.pure (h none)
  | some n => exact Sql.Ends.bind (ends_liftExcept fun n => Sql.Ends.pure (h (some n)))

theorem ends_updateProfile (userId : Int) (a : ProfileUpdate) (D : DB) :
    Ends T (sql (updateProfileRows userId a))
      (fun _ => Leaves T (.updateProfile userId a) D .none) D [] := by
  have hD : KeepsStanding D D := ⟨rfl, rfl, rfl⟩
  refine Ends.sql (Sql.Ends.bind (ends_user fun u hu huid =>
    Sql.Ends.bind (ends_cleanField fun name => ?_)))
  refine Sql.Ends.bind ((ends_updateField (by intros; rfl) hD).mono fun _ db₁ h₁ => ?_)
  refine Sql.Ends.bind (Sql.Ends.query ?_)
  split
  · exact Sql.Ends.raise
  refine Sql.Ends.bind ((ends_updateField (by intros; rfl) h₁).mono fun _ db₂ h₂ => ?_)
  refine Sql.Ends.bind ((ends_updateField (by intros; rfl) h₂).mono fun _ db₃ h₃ => ?_)
  refine Sql.Ends.bind ((ends_updateField (by intros; rfl) h₃).mono fun _ db₄ h₄ => ?_)
  split
  · exact Sql.Ends.raise
  refine Sql.Ends.bind ((ends_updateField (by intros; rfl) h₄).mono fun _ db₅ h₅ => ?_)
  refine ends_logEvent fun ts _ => ⟨.updateProfile h₅.users h₅.devices, ?_⟩
  exact Logs.one (.inl hu) (congrArg some huid.symm) (congrArg (· ++ _) h₅.events)

theorem ends_deleteUser (userId : Int) (D : DB) :
    Ends T (do
      let ports ← sql (deleteUserRows userId)
      block ports) (fun _ => Leaves T (.deleteUser userId) D .none) D [] := by
  refine Ends.bind (Ends.sql
    (Sql.Ends.bind (ends_user fun u hu huid => Sql.Ends.bind (Sql.Ends.query ?_))))
  refine Sql.Ends.bind (Sql.Ends.query (Sql.Ends.bind ?_))
  refine (Sql.Ends.forM (I := SlotsOnly D) (fun row db h => ends_releaseSlot fun db' _ h' _ => ?_) _
    ⟨rfl, rfl, rfl⟩).mono fun _ db₁ h₁ => ?_
  · exact ⟨h'.users.trans h.users, h'.devices.trans h.devices, h'.events.trans h.events⟩
  refine Sql.Ends.bind (Sql.Ends.execute fun _ => Sql.Ends.bind (Sql.Ends.execute fun _ => ?_))
  refine Sql.Ends.bind (ends_logEvent fun ts _ => Sql.Ends.pure (Ends.block ⟨?_, ?_⟩))
  · exact .deleteUser hu huid (congrArg _ h₁.users) (congrArg _ h₁.devices)
  · exact Logs.one (.inl hu) (congrArg some huid.symm) (congrArg (· ++ _) h₁.events)

end Rows

/-! ## Programs -/

section Programs
variable {ok : Allow Action Choice State} {T : Int → Prop} {op : Op} {w : World} {l : Own}

/-- What an operation leaves that began on `D`, after the firewall calls `before`. -/
def Left (T : Int → Prop) (op : Op) (D : DB) (before : List FwCall) (ids : Ids) (w : World)
    (l : Own) : Prop :=
  l.inTx = false ∧ ∃ calls, Leaves T op D ids w.db calls ∧ firewallCalls l.trace = before ++ calls

/-- A body in `_change`, and the ids of its result. -/
theorem safe_changeIds {α : Type} (hT : Clocked T ok) {g : α → Ids} {body : P α}
    (hbody : ∀ D, Ends T body (fun a => Leaves T op D (g a)) D []) (hl : l.inTx = false) :
    Safe sem ok alone free (post (Left T op w.db (firewallCalls l.trace)) Whatever)
      ((change body).bind fun a => .ret (g a)) w l := by
  refine Safe.seq isRely_alone
    (K := Done (fun D a => Leaves T op D (g a)) w.db (firewallCalls l.trace)) ?_ ?_
  · exact Ends.safe_change hT hbody hl
  · rintro a w₁ l₁ h _ rfl
    exact h

/-- The same for an operation that makes no firewall call. -/
theorem safe_transactionIds {α : Type} (hT : Clocked T ok) {g : α → Ids} {body : P α}
    (hbody : ∀ D, Ends T body (fun a => Leaves T op D (g a)) D []) (hl : l.inTx = false) :
    Safe sem ok alone free (post (Left T op w.db (firewallCalls l.trace)) Whatever)
      ((transaction body).bind fun a => .ret (g a)) w l := by
  refine Safe.seq isRely_alone
    (K := Done (fun D a => Leaves T op D (g a)) w.db (firewallCalls l.trace)) ?_ ?_
  · exact Ends.transaction hT hbody hl
  · rintro a w₁ l₁ h _ rfl
    exact h

theorem safe_refused {K : Ids → World → Own → Prop} {e : Err} :
    Safe sem ok alone free (post K Whatever) (.raise e) w l :=
  fun _ _ => trivial

/-- Every user operation that returns has the effect of its `Effect` rule. -/
theorem Op.effect (hT : Clocked T ok) (hu : op.isUser = true) (hl : l.inTx = false) :
    Safe sem ok alone free (post (Left T op w.db (firewallCalls l.trace)) Whatever) op.ids w l := by
  cases op with
  | createUser a =>
    simp only [Op.ids, Users.createUser, Prog.bind_eq]
    cases hcheck : a.check with
    | error e => exact safe_refused
    | ok x =>
      obtain ⟨name, createdBy, reset⟩ := x
      simp only [ofExcept, Prog.ret_bind, Prog.bind_assoc]
      refine Safe.callThen isRely_alone (stable_alone _) ?_
      rintro _ rfl
      refine ⟨trivial, fun r w₁ l₁ hn => ?_⟩
      obtain ⟨⟨timestamp, rfl⟩, rfl, rfl⟩ := next_now hn
      have := safe_changeIds (w := w₁) (l := l.note [⟨.now, .ok⟩]) hT
          (ends_createUser a name createdBy reset timestamp) hl
      rw [firewallCalls_note, show firewallCalls [⟨.now, .ok⟩] = [] from rfl, List.append_nil]
        at this
      exact this
  | addDevice userId createdBy name =>
    simp only [Op.ids, Users.addDevice]
    cases deviceByOf createdBy with
    | none => exact safe_refused
    | some by_ => exact safe_changeIds hT (ends_addDevice userId by_ createdBy name) hl
  | deleteDevice deviceId by_ => exact safe_changeIds hT (ends_deleteDevice deviceId by_) hl
  | rotateDevice deviceId => exact safe_changeIds hT (ends_rotateDevice deviceId) hl
  | renameDevice deviceId name => exact safe_transactionIds hT (ends_renameDevice deviceId name) hl
  | disableUser userId reason =>
    simp only [Op.ids, Op.program, Users.disableUser, Prog.bind_assoc]
    cases hreason : reasonOf reason with
    | none => exact safe_refused
    | some r => exact safe_changeIds hT (ends_disableUser userId hreason) hl
  | enableUser userId =>
    simp only [Op.ids, Op.program, Users.enableUser, Prog.bind_assoc]
    exact safe_changeIds hT (ends_enableUser userId) hl
  | setExpiry userId expiresAt enableNow =>
    refine safe_changeIds hT (fun D => (ends_setExpiry userId expiresAt enableNow D).mono ?_) hl
    exact fun _ _ _ h => ⟨.setExpiry h.1, h.2⟩
  | extend userId days enableNow =>
    simp only [Op.ids, Op.program, Users.extend, Prog.bind_assoc]
    by_cases hdays : days ≤ 0
    · rw [if_pos hdays]
      exact safe_refused
    · rw [if_neg hdays]
      exact safe_changeIds hT (ends_extend (not_le.1 hdays) enableNow) hl
  | setTrafficLimit userId limitBytes reset enableNow =>
    simp only [Op.ids, Op.program, Users.setTrafficLimit]
    cases hreset : resetOf reset with
    | none => exact safe_refused
    | some r =>
      dsimp only
      split
      · exact safe_refused
      · exact safe_changeIds hT (ends_setTrafficLimit hreset enableNow) hl
  | updateProfile userId a => exact safe_transactionIds hT (ends_updateProfile userId a) hl
  | deleteUser userId => exact safe_changeIds hT (ends_deleteUser userId) hl
  | maintain cfg sizing growShards => simp [Op.isUser] at hu
  | sync => simp [Op.isUser] at hu

end Programs

end WebProxyPanel
