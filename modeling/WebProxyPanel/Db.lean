import WebProxyPanel.Lib.Double
import WebProxyPanel.Lib.Literal
import WebProxyPanel.Lib.Table
import WebProxyPanel.Config
/-!
# The database (`webproxy/db.py`)

| here | there |
| --- | --- |
| `Shard`, `Slot`, `User`, `Device`, `Event` | the tables of `MIGRATIONS[0]` (db.py:13-127); columns that no modelled function reads or writes are left out |
| `DB.Consistent` | the `PRIMARY KEY`, `UNIQUE` and `REFERENCES` clauses; `CHECK` and `NOT NULL` are the column types |
| `Int` | `INTEGER`, without a bound: from 2^63 on `sqlite3` raises `OverflowError` |
| `Sql` | statements on one connection, with the values they take from outside: `now()` and `token_hex` |
| `execute` | one writing statement: a violated constraint raises and undoes the statement |
| `getSetting`, `setSetting`, `logEvent` | db.py:187-218 |
-/

namespace WebProxyPanel
open Table

/-! ## Tables -/

inductive Status where | free | assigned | dirty
deriving DecidableEq, Repr

/-- `CHECK(disabled_reason IN (..))`, `DISABLED_REASONS` -/
inductive Reason where | manual | expired | trafficLimit
deriving DecidableEq, Repr

/-- `CHECK(created_by IN (..))` of users, `CREATED_BY` -/
inductive CreatedBy where | panel | botManual | botAuto
deriving DecidableEq, Repr

/-- `CHECK(created_by IN (..))` of devices -/
inductive DeviceBy where | panel | bot
deriving DecidableEq, Repr

/-- `CHECK(traffic_reset IN (..))`, `RESETS` -/
inductive Reset where | never | monthly
deriving DecidableEq, Repr

structure Shard where
  id : Int
  statsPort : Int
  createdAt : Int
  /-- 0 until its unit and relay profiles are applied successfully. -/
  active : Int
deriving DecidableEq, Repr

structure Slot where
  id : Int
  shardId : Int
  idx : Int
  port : Int
  secret : String
  /-- New secret of a dirty slot waiting for a successful apply. -/
  pendingSecret : Option String
  status : Status
  deviceId : Option Int
deriving DecidableEq, Repr

structure User where
  id : Int
  name : String
  tgId : Option Int
  tgUsername : Option String
  tgBotStarted : Int
  tgBlockedBot : Int
  maxDevices : Option Int
  enabled : Int
  disabledReason : Option Reason
  createdAt : Int
  createdBy : CreatedBy
  expiresAt : Option Int
  trafficLimitBytes : Option Int
  trafficReset : Reset
  periodStart : Int
  periodUp : Int
  periodDown : Int
  note : String
deriving DecidableEq, Repr

structure Device where
  id : Int
  userId : Int
  name : String
  slotId : Int
  createdAt : Int
  createdBy : DeviceBy
deriving DecidableEq, Repr

structure Event where
  id : Int
  ts : Int
  kind : String
  userId : Option Int
  details : String
deriving DecidableEq, Repr

/-- A value of the `settings` table, decoded from its JSON text. -/
inductive Value where
  | null
  | bool (b : Bool)
  | int (n : Int)
  | float (d : Double)
  | str (s : String)
  | list (xs : List Value)
  | dict (kvs : List (String × Value))
deriving Repr

mutual
def Value.beq : Value → Value → Bool
  | .null, .null => true
  | .bool b, .bool c => b = c
  | .int m, .int n => m = n
  | .float d, .float e => d = e
  | .str s, .str t => s = t
  | .list xs, .list ys => Value.beqItems xs ys
  | .dict kvs, .dict lvs => Value.beqMembers kvs lvs
  | _, _ => false
def Value.beqItems : List Value → List Value → Bool
  | [], [] => true
  | x :: xs, y :: ys => x.beq y && Value.beqItems xs ys
  | _, _ => false
def Value.beqMembers : List (String × Value) → List (String × Value) → Bool
  | [], [] => true
  | (k, x) :: kvs, (l, y) :: lvs => k = l && x.beq y && Value.beqMembers kvs lvs
  | _, _ => false
end

mutual
theorem Value.beq_iff : ∀ v w : Value, v.beq w = true ↔ v = w
  | .list xs, w => by
    cases w with
    | list ys => simp [Value.beq, Value.beqItems_iff xs ys]
    | _ => simp [Value.beq]
  | .dict kvs, w => by
    cases w with
    | dict lvs => simp [Value.beq, Value.beqMembers_iff kvs lvs]
    | _ => simp [Value.beq]
  | .null, w | .bool _, w | .int _, w | .float _, w | .str _, w => by cases w <;> simp [Value.beq]
theorem Value.beqItems_iff : ∀ xs ys : List Value, Value.beqItems xs ys = true ↔ xs = ys
  | [], ys => by cases ys <;> simp [Value.beqItems]
  | x :: xs, [] => by simp [Value.beqItems]
  | x :: xs, y :: ys => by simp [Value.beqItems, Value.beq_iff x y, Value.beqItems_iff xs ys]
theorem Value.beqMembers_iff :
    ∀ kvs lvs : List (String × Value), Value.beqMembers kvs lvs = true ↔ kvs = lvs
  | [], lvs => by cases lvs <;> simp [Value.beqMembers]
  | (k, x) :: kvs, [] => by simp [Value.beqMembers]
  | (k, x) :: kvs, (l, y) :: lvs =>
    by simp [Value.beqMembers, Value.beq_iff x y, Value.beqMembers_iff kvs lvs]
end

instance : DecidableEq Value := fun v w => decidable_of_iff _ (Value.beq_iff v w)

structure DB where
  shards : List Shard
  slots : List Slot
  users : List User
  devices : List Device
  events : List Event
  settings : List (String × Value)
deriving DecidableEq, Repr

/-- What `migrate` leaves in a new file: the tables without rows. -/
def DB.empty : DB := ⟨[], [], [], [], [], []⟩

/-- The constraints of the schema, with `PRAGMA foreign_keys=ON`. -/
structure DB.Consistent (db : DB) : Prop where
  shardId : (db.shards.map (·.id)).Nodup
  shardStats : (db.shards.map (·.statsPort)).Nodup
  slotId : (db.slots.map (·.id)).Nodup
  slotPort : (db.slots.map (·.port)).Nodup
  slotSecret : (db.slots.map (·.secret)).Nodup
  slotPending : (db.slots.filterMap (·.pendingSecret)).Nodup
  slotIdx : (db.slots.map fun s => (s.shardId, s.idx)).Nodup
  slotShard : ∀ s ∈ db.slots, s.shardId ∈ db.shards.map (·.id)
  userId : (db.users.map (·.id)).Nodup
  userTg : (db.users.filterMap (·.tgId)).Nodup
  deviceId : (db.devices.map (·.id)).Nodup
  deviceSlot : (db.devices.map (·.slotId)).Nodup
  deviceUser : ∀ d ∈ db.devices, d.userId ∈ db.users.map (·.id)
  deviceSlotRef : ∀ d ∈ db.devices, d.slotId ∈ db.slots.map (·.id)
  eventId : (db.events.map (·.id)).Nodup
  settingKey : (db.settings.map (·.1)).Nodup

instance (db : DB) : Decidable db.Consistent :=
  decidable_of_iff
    ((db.shards.map (·.id)).Nodup ∧ (db.shards.map (·.statsPort)).Nodup ∧
      (db.slots.map (·.id)).Nodup ∧ (db.slots.map (·.port)).Nodup ∧
      (db.slots.map (·.secret)).Nodup ∧
      (db.slots.filterMap (·.pendingSecret)).Nodup ∧
      (db.slots.map fun s => (s.shardId, s.idx)).Nodup ∧
      (∀ s ∈ db.slots, s.shardId ∈ db.shards.map (·.id)) ∧
      (db.users.map (·.id)).Nodup ∧ (db.users.filterMap (·.tgId)).Nodup ∧
      (db.devices.map (·.id)).Nodup ∧ (db.devices.map (·.slotId)).Nodup ∧
      (∀ d ∈ db.devices, d.userId ∈ db.users.map (·.id)) ∧
      (∀ d ∈ db.devices, d.slotId ∈ db.slots.map (·.id)) ∧
      (db.events.map (·.id)).Nodup ∧ (db.settings.map (·.1)).Nodup)
    ⟨fun ⟨h1, h2, h3, h4, h5, h6, h7, h8, h9, h10, h11, h12, h13, h14, h15, h16⟩ =>
      ⟨h1, h2, h3, h4, h5, h6, h7, h8, h9, h10, h11, h12, h13, h14, h15, h16⟩,
     fun h => ⟨h.1, h.2, h.3, h.4, h.5, h.6, h.7, h.8, h.9, h.10, h.11, h.12, h.13,
       h.14, h.15, h.16⟩⟩

/-! ## Exceptions -/

inductive Err where
  /-- `users.UserError` -/
  | user (message : String)
  /-- `pool.PoolError` -/
  | pool (message : String)
  /-- `pool.NoFreeSlots`, a `PoolError` -/
  | noFreeSlots (message : String)
  | value (message : String)
  | key (name : String)
  | typeError
  /-- `OverflowError` -/
  | overflow
  /-- `sqlite3.IntegrityError`: a constraint was violated. -/
  | integrity
  /-- `sqlite3.OperationalError`: a statement or COMMIT failed. -/
  | sqlite (message : String)
  /-- `system.SystemError_` or an `OSError` of a file call. -/
  | system (message : String)
deriving DecidableEq, Repr

/-- `str(error)` -/
def Err.text : Err → String
  | .user m | .pool m | .noFreeSlots m | .value m | .sqlite m | .system m => m
  | .key k => "'" ++ k ++ "'"
  | .typeError => "'NoneType' object is not subscriptable"
  | .overflow => "cannot convert float infinity to integer"
  | .integrity => "constraint failed"

/-- `isinstance(error, PoolError)` -/
def Err.isPoolError : Err → Bool
  | .pool _ | .noFreeSlots _ => true
  | _ => false

/-! ## Statements -/

/-- What a run of statements takes from outside, in the order it is taken. -/
structure Inputs where
  /-- `db.now()` -/
  times : List Int
  /-- `secrets.token_hex(16)` -/
  tokens : List String
deriving DecidableEq, Repr

/-- `starved`: the statements need an input that was not supplied, so they are not over yet. -/
inductive Res (α : Type) where
  | ok (a : α) (db : DB) (inp : Inputs)
  | error (e : Err) (db : DB) (inp : Inputs)
  | starved
deriving Repr

/-- Statements and Python between them on the rows that one connection sees. -/
def Sql (α : Type) := DB → Inputs → Res α

namespace Sql

variable {α β : Type}

def bind (m : Sql α) (f : α → Sql β) : Sql β := fun db inp =>
  match m db inp with
  | .ok a db₁ inp₁ => f a db₁ inp₁
  | .error e db₁ inp₁ => .error e db₁ inp₁
  | .starved => .starved

instance : Monad Sql where
  pure a := fun db inp => .ok a db inp
  bind := bind

/-- A read. -/
def query (f : DB → α) : Sql α := fun db inp => .ok (f db) db inp

def raise (e : Err) : Sql α := fun db inp => .error e db inp

/-- A writing statement. -/
def execute (f : DB → DB) : Sql Unit := fun db inp =>
  if (f db).Consistent then .ok () (f db) inp else .error .integrity db inp

/-- `db.now()` -/
def now : Sql Int := fun db inp =>
  match inp.times with
  | [] => .starved
  | t :: ts => .ok t db { inp with times := ts }

/-- `row is None` after `fetchone()` raises `e`. -/
def orRaise (o : Option α) (e : Err) : Sql α :=
  match o with
  | some a => pure a
  | none => raise e

theorem pure_run (a : α) (db : DB) (inp : Inputs) : (pure a : Sql α) db inp = .ok a db inp := rfl
theorem bind_run (m : Sql α) (f : α → Sql β) (db : DB) (inp : Inputs) :
    (m >>= f) db inp = match m db inp with
      | .ok a db₁ inp₁ => f a db₁ inp₁
      | .error e db₁ inp₁ => .error e db₁ inp₁
      | .starved => .starved := rfl

/-- Peel the first of two runs of statements off a success. -/
theorem bind_eq_ok {m : Sql α} {f : α → Sql β} {db db' : DB} {inp inp' : Inputs} {b : β} :
    (m >>= f) db inp = .ok b db' inp' ↔ ∃ a db₁ inp₁, m db inp = .ok a db₁ inp₁ ∧
      f a db₁ inp₁ = .ok b db' inp' := by
  rw [bind_run]
  cases m db inp <;> simp

theorem bind_eq_error {m : Sql α} {f : α → Sql β} {db db' : DB} {inp inp' : Inputs} {e : Err} :
    (m >>= f) db inp = .error e db' inp' ↔ m db inp = .error e db' inp' ∨
      ∃ a db₁ inp₁, m db inp = .ok a db₁ inp₁ ∧ f a db₁ inp₁ = .error e db' inp' := by
  rw [bind_run]
  cases m db inp <;> simp

@[simp] theorem pure_eq_ok {a b : α} {db db' : DB} {inp inp' : Inputs} :
    (pure a : Sql α) db inp = .ok b db' inp' ↔ a = b ∧ db = db' ∧ inp = inp' := by simp [pure_run]
@[simp] theorem pure_ne_error {a : α} {db db' : DB} {inp inp' : Inputs} {e : Err} :
    (pure a : Sql α) db inp ≠ .error e db' inp' := by simp [pure_run]
@[simp] theorem query_eq_ok {f : DB → α} {b : α} {db db' : DB} {inp inp' : Inputs} :
    query f db inp = .ok b db' inp' ↔ f db = b ∧ db = db' ∧ inp = inp' := by simp [query]
@[simp] theorem query_ne_error {f : DB → α} {db db' : DB} {inp inp' : Inputs} {e : Err} :
    query f db inp ≠ .error e db' inp' := by simp [query]
@[simp] theorem raise_ne_ok {e : Err} {b : α} {db db' : DB} {inp inp' : Inputs} :
    (raise e : Sql α) db inp ≠ .ok b db' inp' := by simp [raise]
@[simp] theorem raise_eq_error {e e' : Err} {db db' : DB} {inp inp' : Inputs} :
    (raise e : Sql α) db inp = .error e' db' inp' ↔ e = e' ∧ db = db' ∧
      inp = inp' := by simp [raise]
@[simp] theorem execute_eq_ok {f : DB → DB} {u : Unit} {db db' : DB} {inp inp' : Inputs} :
    execute f db inp = .ok u db' inp' ↔ (f db).Consistent ∧ f db = db' ∧ inp = inp' := by
  by_cases h : (f db).Consistent <;> simp [execute, h]
@[simp] theorem execute_eq_error {f : DB → DB} {e : Err} {db db' : DB} {inp inp' : Inputs} :
    execute f db inp = .error e db' inp' ↔ ¬ (f db).Consistent ∧ e = .integrity ∧ db = db' ∧
      inp = inp' := by
  by_cases h : (f db).Consistent <;> simp [execute, h, eq_comm]
@[simp] theorem now_eq_ok {t : Int} {db db' : DB} {inp inp' : Inputs} :
    now db inp = .ok t db' inp' ↔ inp.times = t :: inp'.times ∧ inp.tokens = inp'.tokens ∧
      db = db' := by
  obtain ⟨ts, us⟩ := inp
  obtain ⟨ts', us'⟩ := inp'
  cases ts with
  | nil => simp [now]
  | cons t' ts =>
    simp only [now, Res.ok.injEq, Inputs.mk.injEq, List.cons.injEq]
    constructor
    · rintro ⟨rfl, rfl, rfl, rfl⟩; exact ⟨⟨rfl, rfl⟩, rfl, rfl⟩
    · rintro ⟨⟨rfl, rfl⟩, rfl, rfl⟩; exact ⟨rfl, rfl, rfl, rfl⟩
@[simp] theorem now_ne_error {db db' : DB} {inp inp' : Inputs} {e : Err} :
    now db inp ≠ .error e db' inp' := by
  obtain ⟨ts, us⟩ := inp
  cases ts <;> simp [now]
@[simp] theorem orRaise_eq_ok {o : Option α} {e : Err} {a : α} {db db' : DB} {inp inp' : Inputs} :
    orRaise o e db inp = .ok a db' inp' ↔ o = some a ∧ db = db' ∧ inp = inp' := by
  cases o <;> simp [orRaise]
@[simp] theorem orRaise_eq_error {o : Option α} {e e' : Err} {db db' : DB} {inp inp' : Inputs} :
    (orRaise o e : Sql α) db inp = .error e' db' inp' ↔ o = none ∧ e = e' ∧ db = db' ∧
      inp = inp' := by
  cases o <;> simp [orRaise]

end Sql

/-! ## Settings and events -/

/-- `config.SETTINGS_DEFAULTS` -/
def settingsDefaults : List (String × Value) :=
  [("approval_mode", .str "manual"), ("requests_enabled", .bool true),
    ("request_cooldown_hours", .int 24),
   ("request_ttl_days", .int 7), ("requests_per_hour", .int 30), ("default_days", .int 30),
   ("default_traffic_limit_bytes", .null), ("default_traffic_reset", .str "never"),
   ("default_max_devices", .int 1), ("emergency_expand", .str "ask"), ("bot_token", .str ""),
   ("bot_username", .str ""), ("admin_tg_ids", .list []), ("notify", .dict []),
   ("maintenance_time", .str "04:30"), ("profile_new_streams_per_minute", .int 300),
   ("profile_new_streams_burst", .int 64)]

/-- `get_setting` -/
def getSetting (key : String) : Sql Value := do
  let row ← Sql.query fun db => db.settings.lookup key
  match row with
  | some value => pure value
  | none => Sql.orRaise (settingsDefaults.lookup key) (.key key)

/-- `set_setting` -/
def setSetting (key : String) (value : Value) : Sql Unit :=
  match settingsDefaults.lookup key with
  | none => Sql.raise (.key key)
  | some _ => Sql.execute fun db =>
    { db with settings :=
        if db.settings.any (·.1 = key) then update (·.1 = key) (fun _ => (key, value)) db.settings
        else db.settings ++ [(key, value)] }

/-- `int(value)` of a setting -/
def Value.toInt : Value → Except Err Int
  | .int n => .ok n
  | .bool b => .ok (if b then 1 else 0)
  | .float d => match d.toInt with
    | some n => .ok n
    | none => .error (if d = .nan then .value "cannot convert float NaN to integer" else .overflow)
  | .str s => match Literal.ofText Literal.decimal s.toList with
    | some n => .ok n
    | none => .error (.value "invalid literal for int()")
  | .null | .list _ | .dict _ => .error .typeError

/-- The row `log_event` appends. -/
def DB.addEvent (ts : Int) (kind : String) (userId : Option Int) (details : String) (db : DB) :
    DB :=
  { db with events := db.events ++ [⟨nextRowid (db.events.map (·.id)), ts, kind, userId, details⟩] }

/-- `log_event` -/
def logEvent (kind : String) (userId : Option Int) (details : String) : Sql Unit := do
  let ts ← Sql.now
  Sql.execute (DB.addEvent ts kind userId details)

end WebProxyPanel
