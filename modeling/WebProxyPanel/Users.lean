import WebProxyPanel.System
/-!
# User and device operations (`webproxy/users.py`)

Each operation is one `change` (or one `transaction`, where it makes no firewall call): statements
first, firewall calls just before COMMIT. The statements of an operation are a definition of their
own, named `..Rows`.
-/

namespace WebProxyPanel
namespace Users
open Table Effects

def day : Int := 86400
def maxName : Nat := 64

/-! ## Names of the enumerations -/

/-- `CREATED_BY` -/
def createdByOf (s : String) : Option CreatedBy :=
  if s = "panel" then some .panel
  else if s = "bot_manual" then some .botManual
  else if s = "bot_auto" then some .botAuto
  else none

/-- `("panel", "bot")` -/
def deviceByOf (s : String) : Option DeviceBy :=
  if s = "panel" then some .panel else if s = "bot" then some .bot else none

/-- `DISABLED_REASONS` -/
def reasonOf (s : String) : Option Reason :=
  if s = "manual" then some .manual
  else if s = "expired" then some .expired
  else if s = "traffic_limit" then some .trafficLimit
  else none

/-- `RESETS` -/
def resetOf (s : String) : Option Reset :=
  if s = "never" then some .never else if s = "monthly" then some .monthly else none

def Reason.text : Reason → String
  | .manual => "manual"
  | .expired => "expired"
  | .trafficLimit => "traffic_limit"

/-! ## Names -/

/-- `str.isspace` of one character -/
def isSpace (c : Char) : Bool :=
  let n := c.toNat
  (9 ≤ n && n ≤ 13) || (28 ≤ n && n ≤ 32) || n = 133 || n = 160 || n = 5760 ||
    (8192 ≤ n && n ≤ 8202) || n = 8232 || n = 8233 || n = 8239 || n = 8287 || n = 12288

/-- `str.split()`: the runs of other characters; `word` is the run being read. -/
def splitWords (word : List Char) : List Char → List (List Char)
  | [] => if word = [] then [] else [word]
  | c :: cs =>
    if isSpace c then (if word = [] then splitWords [] cs else word :: splitWords [] cs)
    else splitWords (word ++ [c]) cs

/-- `_clean_name` -/
def cleanName (name : String) : Except Err String :=
  let name := " ".intercalate ((splitWords [] name.toList).map String.ofList)
  if name = "" then .error (.user "Имя не может быть пустым.")
  else if name.length > maxName then
    .error (.user ("Имя длиннее " ++ toString maxName ++ " символов."))
  else .ok name

/-- A check between two statements. -/
def liftExcept {α : Type} : Except Err α → Sql α
  | .ok a => pure a
  | .error e => Sql.raise e

/-! ## Reads -/

/-- `_user` -/
def user (userId : Int) : Sql User := do
  let row ← Sql.query fun db => db.users.find? (·.id = userId)
  Sql.orRaise row (.user "Пользователь не найден.")

/-- `devices d JOIN slots s ON s.id = d.slot_id` -/
def devicesWithSlot (db : DB) : List (Device × Slot) :=
  innerJoin db.devices db.slots fun d s => s.id = d.slotId

/-- `_device` -/
def device (deviceId : Int) : Sql (Device × Slot) := do
  let row ← Sql.query fun db => (devicesWithSlot db).find? (·.1.id = deviceId)
  Sql.orRaise row (.user "Устройство не найдено.")

/-- `_device_ports` -/
def devicePorts (userId : Int) (db : DB) : List Int :=
  (orderBy (·.2.port) ((devicesWithSlot db).filter (·.1.userId = userId))).map (·.2.port)

/-- `SELECT COUNT(*) FROM devices WHERE user_id = ?` -/
def deviceCount (userId : Int) (db : DB) : Int := (db.devices.filter (·.userId = userId)).length

/-- `max_devices` -/
def maxDevices (u : User) : Sql Int :=
  match u.maxDevices with
  | some n => pure n
  | none => do
    let value ← getSetting "default_max_devices"
    liftExcept value.toInt

/-! ## Writes -/

def addUser (u : User) (db : DB) : DB := { db with users := db.users ++ [u] }
def updateUser (id : Int) (f : User → User) (db : DB) : DB :=
  { db with users := update (fun u => decide (u.id = id)) f db.users }
def removeUser (id : Int) (db : DB) : DB :=
  { db with users := delete (fun u => decide (u.id = id)) db.users }
def addDeviceRow (d : Device) (db : DB) : DB := { db with devices := db.devices ++ [d] }
def updateDevice (id : Int) (f : Device → Device) (db : DB) : DB :=
  { db with devices := update (fun d => decide (d.id = id)) f db.devices }
def removeDevice (id : Int) (db : DB) : DB :=
  { db with devices := delete (fun d => decide (d.id = id)) db.devices }
def removeDevicesOf (userId : Int) (db : DB) : DB :=
  { db with devices := delete (fun d => decide (d.userId = userId)) db.devices }

/-- `_clean_name(name) if name else "Устройство %d" % (count + 1)` -/
def deviceNameOf (name : Option String) (count : Int) : Sql String :=
  match name with
  | some n =>
    if n = "" then pure ("Устройство " ++ toString (count + 1)) else liftExcept (cleanName n)
  | none => pure ("Устройство " ++ toString (count + 1))

/-- `_attach_device` -/
def attachDevice (userId : Int) (name : Option String) (createdBy : DeviceBy) : Sql (Int × Int) :=
  do
  let slot ← takeFreeSlot none
  let count ← Sql.query (deviceCount userId)
  let deviceName ← deviceNameOf name count
  let ts ← Sql.now
  let deviceId ← Sql.query fun db => nextRowid (db.devices.map (·.id))
  Sql.execute (addDeviceRow ⟨deviceId, userId, deviceName, slot.id, ts, createdBy⟩)
  Sql.execute (DB.updateSlot slot.id fun s => { s with deviceId := some deviceId })
  pure (deviceId, slot.port)

/-- The arguments of `create_user`. -/
structure NewUser where
  name : String
  createdBy : String
  tgId : Option Int
  tgUsername : Option String
  expiresAt : Option Int
  trafficLimitBytes : Option Int
  trafficReset : String
  note : String
  maxDevicesValue : Option Int
  deviceName : Option String
deriving DecidableEq, Repr

/-- The checks of `create_user` before its transaction. -/
def NewUser.check (a : NewUser) : Except Err (String × CreatedBy × Reset) := do
  let name ← cleanName a.name
  let createdBy ← (createdByOf a.createdBy).elim (.error (.value "created_by")) .ok
  let reset ← (resetOf a.trafficReset).elim (.error (.user "Неизвестный тип сброса трафика.")) .ok
  if a.trafficLimitBytes.any (· ≤ 0) then .error (.user "Лимит трафика должен быть положительным.")
  else if a.maxDevicesValue.any (· < 1) then
    .error (.user "Лимит устройств должен быть не меньше 1.")
  else .ok (name, createdBy, reset)

/-- The row that `create_user` inserts; the other columns have their defaults. -/
def NewUser.row (a : NewUser) (id : Int) (name : String) (createdBy : CreatedBy) (reset : Reset)
    (timestamp : Int) : User where
  id := id
  name := name
  tgId := a.tgId
  tgUsername := a.tgUsername
  tgBotStarted := 0
  tgBlockedBot := 0
  maxDevices := a.maxDevicesValue
  enabled := 1
  disabledReason := none
  createdAt := timestamp
  createdBy := createdBy
  expiresAt := a.expiresAt
  trafficLimitBytes := a.trafficLimitBytes
  trafficReset := reset
  periodStart := timestamp
  periodUp := 0
  periodDown := 0
  note := a.note

/-- `SELECT 1 FROM users WHERE tg_id = ?`, with `AND id != ?` for `other` -/
def tgIdTaken (tgId : Option Int) (other : Option Int) (db : DB) : Bool :=
  match tgId with
  | some t => db.users.any fun u => u.tgId = some t && some u.id ≠ other
  | none => false

def createUserRows (a : NewUser) (name : String) (createdBy : CreatedBy) (reset : Reset)
    (timestamp : Int) :
    Sql (Int × Int × Int) := do
  let taken ← Sql.query (tgIdTaken a.tgId none)
  if taken then Sql.raise (.user "Пользователь с таким Telegram ID уже есть.")
  else do
    let userId ← Sql.query fun db => nextRowid (db.users.map (·.id))
    Sql.execute (addUser (a.row userId name createdBy reset timestamp))
    let (deviceId, port) ← attachDevice userId a.deviceName
        (if createdBy = .panel then .panel else .bot)
    logEvent "user_created" (some userId) ("by=" ++ a.createdBy ++ " device=" ++ toString deviceId)
    pure (userId, deviceId, port)

/-- `create_user` -/
def createUser (a : NewUser) : P (Int × Int) := do
  let (name, createdBy, reset) ← ofExcept a.check
  let timestamp ← .call .now
  change do
    let (userId, deviceId, port) ← sql (createUserRows a name createdBy reset timestamp)
    unblock [port]
    pure (userId, deviceId)

def addDeviceRows (userId : Int) (createdBy : DeviceBy) (createdByText : String)
    (name : Option String) :
    Sql (User × Int × Int) := do
  let u ← user userId
  if createdBy = .bot ∧ u.enabled = 0 then
    Sql.raise (.user "Доступ отключён: новое устройство добавить нельзя.")
  else do
    let limit ← maxDevices u
    let count ← Sql.query (deviceCount userId)
    if count ≥ limit then Sql.raise (.user ("Достигнут лимит устройств: " ++ toString limit ++ "."))
    else do
      let (deviceId, port) ← attachDevice userId name createdBy
      logEvent "device_added" (some userId)
        ("device=" ++ toString deviceId ++ " by=" ++ createdByText)
      pure (u, deviceId, port)

/-- `add_device` -/
def addDevice (userId : Int) (createdBy : String) (name : Option String) : P Int := do
  match deviceByOf createdBy with
  | none => .raise (.value "created_by")
  | some by_ => change do
    let (u, deviceId, port) ← sql (addDeviceRows userId by_ createdBy name)
    Prog.runIf (u.enabled ≠ 0) (unblock [port])
    pure deviceId

def deleteDeviceRows (deviceId : Int) (by_ : String) : Sql Int := do
  let (d, s) ← device deviceId
  releaseSlot d.slotId
  Sql.execute (removeDevice deviceId)
  logEvent "device_deleted" (some d.userId) ("device=" ++ toString deviceId ++ " by=" ++ by_)
  pure s.port

/-- `delete_device` -/
def deleteDevice (deviceId : Int) (by_ : String) : P Unit :=
  change do
    let port ← sql (deleteDeviceRows deviceId by_)
    block [port]

def rotateDeviceRows (deviceId : Int) : Sql (Int × User × Int) := do
  let (d, s) ← device deviceId
  let u ← user d.userId
  let slot ← takeFreeSlot (some deviceId)
  releaseSlot d.slotId
  Sql.execute (updateDevice deviceId fun d => { d with slotId := slot.id })
  logEvent "device_rotated" (some d.userId) ("device=" ++ toString deviceId)
  pure (s.port, u, slot.port)

/-- `rotate_device`: the device moves to a clean slot, the old one becomes dirty. -/
def rotateDevice (deviceId : Int) : P Unit :=
  change do
    let (old, u, port) ← sql (rotateDeviceRows deviceId)
    block [old]
    Prog.runIf (u.enabled ≠ 0) (unblock [port])

def renameDeviceRows (deviceId : Int) (name : String) : Sql Unit := do
  let _ ← device deviceId
  let name ← liftExcept (cleanName name)
  Sql.execute (updateDevice deviceId fun d => { d with name := name })

/-- `rename_device` -/
def renameDevice (deviceId : Int) (name : String) : P Unit :=
  transaction (sql (renameDeviceRows deviceId name))

/-- `enabled = 0, disabled_reason = ?` -/
def setDisabled (reason : Reason) (u : User) : User :=
  { u with enabled := 0, disabledReason := some reason }
/-- `enabled = 1, disabled_reason = NULL` -/
def setEnabled (u : User) : User := { u with enabled := 1, disabledReason := none }

/-- The ports to block, or `none` if the user was already disabled. -/
def disableUserRows (userId : Int) (reason : Reason) : Sql (Option (List Int)) := do
  let u ← user userId
  if u.enabled = 0 then pure none
  else do
    Sql.execute (updateUser userId (setDisabled reason))
    logEvent "user_disabled" (some userId) ("reason=" ++ Reason.text reason)
    let ports ← Sql.query (devicePorts userId)
    pure (some ports)

/-- `disable_user` -/
def disableUser (userId : Int) (reason : String) : P Bool :=
  match reasonOf reason with
  | none => .raise (.value "reason")
  | some r => change do
    match ← sql (disableUserRows userId r) with
    | none => pure false
    | some ports => do
      block ports
      pure true

/-- The ports to unblock, or `none` if the user was already enabled. -/
def enableUserRows (userId : Int) : Sql (Option (List Int)) := do
  let u ← user userId
  if u.enabled ≠ 0 then pure none
  else do
    Sql.execute (updateUser userId setEnabled)
    logEvent "user_enabled" (some userId) ""
    let ports ← Sql.query (devicePorts userId)
    pure (some ports)

/-- `enable_user` -/
def enableUser (userId : Int) : P Bool :=
  change do
    match ← sql (enableUserRows userId) with
    | none => pure false
    | some ports => do
      unblock ports
      pure true

/-- `_limit_reached` -/
def limitReached (u : User) : Bool :=
  match u.trafficLimitBytes with
  | some limit => u.periodUp + u.periodDown ≥ limit
  | none => false

/-- `_expired` -/
def expired (u : User) (timestamp : Int) : Bool :=
  match u.expiresAt with
  | some t => t ≤ timestamp
  | none => false

/-- The ports to unblock, or `none` if the user stays as they are. -/
def maybeReenableRows (userId : Int) (reason : Reason) : Sql (Option (List Int)) := do
  let u ← user userId
  if u.enabled ≠ 0 ∨ u.disabledReason ≠ some reason then pure none
  else do
    let timestamp ← Sql.now
    if expired u timestamp || limitReached u then pure none
    else do
      Sql.execute (updateUser userId setEnabled)
      logEvent "user_enabled" (some userId) ("after=" ++ Reason.text reason)
      let ports ← Sql.query (devicePorts userId)
      pure (some ports)

/-- `_maybe_reenable` -/
def maybeReenable (userId : Int) (reason : Reason) : P Unit := do
  match ← sql (maybeReenableRows userId reason) with
  | none => pure ()
  | some ports => unblock ports

/-- `expires_at or "never"` -/
def orText (n : Option Int) (text : String) : String :=
  match n with
  | some t => if t = 0 then text else toString t
  | none => text

def setExpiryRows (userId : Int) (expiresAt : Option Int) : Sql Unit := do
  let _ ← user userId
  Sql.execute (updateUser userId fun u => { u with expiresAt := expiresAt })
  logEvent "user_expiry_set" (some userId) ("expires_at=" ++ orText expiresAt "never")

/-- `set_expiry` -/
def setExpiry (userId : Int) (expiresAt : Option Int) (enableNow : Bool) : P Unit :=
  change do
    sql (setExpiryRows userId expiresAt)
    Prog.runIf enableNow (maybeReenable userId .expired)

/-- The new expiry of `extend`; `expires_at or 0` is 0 for `NULL`. -/
def extendRows (userId days : Int) : Sql Int := do
  let u ← user userId
  let ts ← Sql.now
  pure (max ts (u.expiresAt.getD 0) + days * day)

/-- `extend`; its `set_expiry` joins the transaction. -/
def extend (userId days : Int) (enableNow : Bool) : P Int := do
  if days ≤ 0 then .raise (.user "Число дней должно быть положительным.")
  else change do
    let expiresAt ← sql (extendRows userId days)
    setExpiry userId (some expiresAt) enableNow
    pure expiresAt

def setTrafficLimitRows (userId : Int) (limitBytes : Option Int) (reset : Reset)
    (resetText : String) :
    Sql Unit := do
  let _ ← user userId
  Sql.execute (updateUser userId fun u =>
    { u with trafficLimitBytes := limitBytes, trafficReset := reset })
  logEvent "user_limit_set" (some userId)
    ("limit=" ++ orText limitBytes "none" ++ " reset=" ++ resetText)

/-- `set_traffic_limit` -/
def setTrafficLimit (userId : Int) (limitBytes : Option Int) (reset : String) (enableNow : Bool) :
    P Unit :=
  match resetOf reset with
  | none => .raise (.user "Неизвестный тип сброса трафика.")
  | some r =>
    if limitBytes.any (· ≤ 0) then .raise (.user "Лимит трафика должен быть положительным.")
    else change do
      sql (setTrafficLimitRows userId limitBytes r reset)
      Prog.runIf enableNow (maybeReenable userId .trafficLimit)

/-- The arguments of `update_profile`; the outer `none` is `...` and leaves the field as it is. -/
structure ProfileUpdate where
  name : Option String
  tgId : Option (Option Int)
  tgUsername : Option (Option String)
  note : Option String
  maxDevicesValue : Option (Option Int)
deriving DecidableEq, Repr

/-- `UPDATE users SET .. WHERE id = ?` for one argument, if it is given. -/
def updateField {α : Type} (value : Option α) (userId : Int) (f : α → User → User) : Sql Unit :=
  match value with
  | some v => Sql.execute (updateUser userId (f v))
  | none => pure ()

/-- `_clean_name` of a name that is given. -/
def cleanField : Option String → Sql (Option String)
  | some n => do
    let n ← liftExcept (cleanName n)
    pure (some n)
  | none => pure none

def updateProfileRows (userId : Int) (a : ProfileUpdate) : Sql Unit := do
  let _ ← user userId
  let name ← cleanField a.name
  updateField name userId fun n u => { u with name := n }
  let taken ← Sql.query (tgIdTaken (a.tgId.getD none) (some userId))
  if taken then Sql.raise (.user "Пользователь с таким Telegram ID уже есть.")
  else do
    updateField a.tgId userId fun t u => { u with tgId := t, tgBotStarted := 0, tgBlockedBot := 0 }
    updateField a.tgUsername userId fun t u => { u with tgUsername := t }
    updateField a.note userId fun t u => { u with note := t }
    if (a.maxDevicesValue.getD none).any (· < 1) then
      Sql.raise (.user "Лимит устройств должен быть не меньше 1.")
    else do
      updateField a.maxDevicesValue userId fun n u => { u with maxDevices := n }
      logEvent "user_updated" (some userId) ""

/-- `update_profile` -/
def updateProfile (userId : Int) (a : ProfileUpdate) : P Unit :=
  transaction (sql (updateProfileRows userId a))

def deleteUserRows (userId : Int) : Sql (List Int) := do
  let _ ← user userId
  let ports ← Sql.query (devicePorts userId)
  let rows ← Sql.query fun db => db.devices.filter (·.userId = userId)
  rows.forM fun row => releaseSlot row.slotId
  Sql.execute (removeDevicesOf userId)
  Sql.execute (removeUser userId)
  logEvent "user_deleted" (some userId) ""
  pure ports

/-- `delete_user` -/
def deleteUser (userId : Int) : P Unit :=
  change do
    let ports ← sql (deleteUserRows userId)
    block ports

end Users
end WebProxyPanel
