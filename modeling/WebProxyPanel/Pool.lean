import WebProxyPanel.Db
/-!
# Shards and slots (`webproxy/pool.py`, queries, mutations and rendering)

| here | there |
| --- | --- |
| `blockedPorts` | `BLOCKED_PORTS_SQL` (pool.py:26-33, the same text in ctl.py:41-48) |
| `newSecret` | `_new_secret` (:46-52); the loop is the search through the tokens supplied |
| `counts`, `lowWater`, `needsMaintenance` | :61-80 |
| `createShards`, `takeFreeSlot`, `releaseSlot` | :85-118 |
| `stageDirty`, `commitStaged`, `abortStaged` | :121-141 |
| `renderProfiles`, `renderShardEnv`, `renderRelayConfig` | :146-191 |
-/

namespace WebProxyPanel
open Table

/-! ## Queries -/

/-- `slots s JOIN shards sh ON sh.id = s.shard_id` -/
def slotsWithShard (db : DB) : List (Slot × Shard) :=
  innerJoin db.slots db.shards fun s sh => sh.id = s.shardId

/-- The joins of `BLOCKED_PORTS_SQL`. -/
def blockedJoin (db : DB) : List (((Slot × Shard) × Option Device) × Option User) :=
  leftJoin (leftJoin (slotsWithShard db) db.devices fun x d => d.slotId = x.1.id) db.users
    fun x u => eq3 (x.2.map (·.userId)) u.id = some true

/-- `NOT (s.status = 'assigned' AND sh.active = 1 AND u.enabled = 1)` -/
def blockedCond (x : ((Slot × Shard) × Option Device) × Option User) : Option Bool :=
  not3 (and3 (and3 (eq3 (some x.1.1.1.status) .assigned) (eq3 (some x.1.1.2.active) 1))
    (eq3 (x.2.map (·.enabled)) 1))

/-- `BLOCKED_PORTS_SQL`, and `blocked_ports` -/
def blockedPorts (db : DB) : List Int :=
  (orderBy (·.1.1.1.port) (where3 blockedCond (blockedJoin db))).map (·.1.1.1.port)

/-- `ALL_PORTS_SQL` -/
def allPorts (db : DB) : List Int := (orderBy (·.port) db.slots).map (·.port)

/-- `SHARDS_SQL` of ctl.py -/
def allShards (db : DB) : List Int := (orderBy (·.id) db.shards).map (·.id)

/-- The dict of `counts`. -/
structure Counts where
  free : Nat
  assigned : Nat
  dirty : Nat
  pending : Nat
  shards : Nat
  slots : Nat
deriving DecidableEq, Repr

/-- `SELECT s.status, COUNT(*) .. WHERE sh.active = 1 GROUP BY s.status` for one status -/
def countStatus (st : Status) (db : DB) : Nat :=
  ((slotsWithShard db).filter fun x => x.2.active = 1 && x.1.status = st).length

/-- `counts` -/
def counts (db : DB) : Counts where
  free := countStatus .free db
  assigned := countStatus .assigned db
  dirty := countStatus .dirty db
  pending := (db.slots.filter fun s => s.pendingSecret.isSome).length
  shards := (db.shards.filter fun sh => sh.active = 1).length
  slots := (db.shards.filter fun sh => sh.active = 1).length * shardSize

/-- `low_water` -/
def lowWater (db : DB) : Nat := max shardSize ((counts db).slots / 10)

/-- `needs_maintenance` -/
def needsMaintenance (db : DB) : Bool := (counts db).dirty > 0 || (counts db).free < lowWater db

/-! ## Mutations -/

/-- `SELECT 1 FROM slots WHERE secret = ? OR pending_secret = ?` -/
def secretUsed (v : String) (db : DB) : Bool :=
  db.slots.any fun s => s.secret = v || s.pendingSecret = some v

/-- What `secrets.token_hex(16)` can return. -/
def isTokenHex (v : String) : Bool :=
  v.length = 32 && v.toList.all fun c => c.isDigit || ('a'.toNat ≤ c.toNat && c.toNat ≤ 'f'.toNat)

/-- The `while True` loop of `_new_secret`. -/
def firstUnused (db : DB) (times : List Int) : List String → Res String
  | [] => .starved
  | v :: vs => if secretUsed v db then firstUnused db times vs else .ok v db ⟨times, vs⟩

/-- `_new_secret` -/
def newSecret : Sql String := fun db inp => firstUnused db inp.times inp.tokens

def DB.addShard (shard timestamp : Int) (db : DB) : DB :=
  { db with shards := db.shards ++ [⟨shard, statsPort shard, timestamp, 0⟩] }

def DB.addSlot (shard idx : Int) (secret : String) (db : DB) : DB :=
  { db with slots := db.slots ++
      [⟨nextRowid (db.slots.map (·.id)), shard, idx, slotPort shard idx, secret, none, .free, none⟩]
      }

/-- One round of the inner loop of `create_shards`. -/
def insertSlot (shard : Int) (idx : Nat) : Sql Unit := do
  let secret ← newSecret
  Sql.execute (DB.addSlot shard idx secret)

/-- One round of the outer loop of `create_shards`. -/
def insertShard (timestamp shard : Int) : Sql Unit := do
  Sql.execute (DB.addShard shard timestamp)
  (List.range shardSize).forM (insertSlot shard)

/-- `SELECT MAX(id) FROM shards`, plus one; 0 in an empty table -/
def firstNewShard (db : DB) : Int :=
  match (db.shards.map (·.id)).max? with
  | none => 0
  | some m => m + 1

/-- `create_shards` -/
def createShards (count : Int) : Sql (List Int) := do
  if count ≤ 0 then pure []
  else do
    let first ← Sql.query firstNewShard
    if first + count > maxShards then
      Sql.raise (.pool ("Достигнут предел пула: " ++ toString maxShards ++ " шардов."))
    else do
      let timestamp ← Sql.now
      let created := (List.range count.toNat).map fun i : Nat => first + i
      created.forM (insertShard timestamp)
      pure created

/-- `UPDATE slots SET .. WHERE id = ?` -/
def DB.updateSlot (id : Int) (f : Slot → Slot) (db : DB) : DB :=
  { db with slots := update (fun s => decide (s.id = id)) f db.slots }

/-- The first row of `take_free_slot`. -/
def firstFree (db : DB) : Option Slot :=
  ((orderBy (·.1.id) ((slotsWithShard db).filter fun x => x.1.status = .free &&
    x.2.active = 1)).head?).map (·.1)

/-- `take_free_slot` -/
def takeFreeSlot (deviceId : Option Int) : Sql Slot := do
  let row ← Sql.query firstFree
  let row ← Sql.orRaise row (.noFreeSlots "Нет свободных чистых слотов.")
  Sql.execute (DB.updateSlot row.id fun s => { s with status := .assigned, deviceId := deviceId })
  let again ← Sql.query fun db => db.slots.find? (·.id = row.id)
  Sql.orRaise again .typeError

/-- `release_slot` -/
def releaseSlot (slotId : Int) : Sql Unit :=
  Sql.execute (DB.updateSlot slotId fun s => { s with status := .dirty, deviceId := none })

/-- `if row["pending_secret"] is None` -/
def stageSecret (row : Slot) : Sql Unit :=
  if row.pendingSecret = none then do
    let secret ← newSecret
    Sql.execute (DB.updateSlot row.id fun s => { s with pendingSecret := some secret })
  else pure ()

/-- One row of the loop of `stage_dirty`. -/
def stageRow (shards : List Int) (row : Slot) : Sql (List Int) := do
  stageSecret row
  pure (shards.insert row.shardId)

/-- `stage_dirty`: the set of shards as a list without repetitions. -/
def stageDirty : Sql (List Int) := do
  let rows ← Sql.query fun db => db.slots.filter (·.status = .dirty)
  rows.foldlM stageRow []

/-- A slot after its row of the `UPDATE slots` of `commit_staged`. -/
def Slot.commitPending (s : Slot) : Slot :=
  match s.pendingSecret with
  | some v => { s with secret := v, pendingSecret := none, status := .free }
  | none => s

/-- `WHERE pending_secret IS NOT NULL AND status = 'dirty'` -/
def Slot.staged (s : Slot) : Bool := s.pendingSecret.isSome && s.status = .dirty

def DB.activateShards (db : DB) : DB :=
  { db with shards := update (fun sh => decide (sh.active = 0)) (fun sh => { sh with active := 1 }) db.shards }

/-- `commit_staged`. The first statement writes a `UNIQUE` column in several rows, and SQLite checks
the constraint at each row, so it is a loop over the rows. -/
def commitStaged : Sql Unit := do
  let rows ← Sql.query fun db => db.slots.filter Slot.staged
  rows.forM fun row => Sql.execute (DB.updateSlot row.id Slot.commitPending)
  Sql.execute DB.activateShards

/-- `SELECT id FROM shards WHERE active = 0` -/
def inactiveShards (db : DB) : List Int := (db.shards.filter (·.active = 0)).map (·.id)

def DB.clearPending (db : DB) : DB :=
  { db with slots := update (·.pendingSecret.isSome) (fun s => { s with pendingSecret := none }) db.slots }

def DB.dropInactiveSlots (db : DB) : DB :=
  { db with slots := delete (fun s => decide (s.shardId ∈ inactiveShards db)) db.slots }

def DB.dropInactiveShards (db : DB) : DB :=
  { db with shards := delete (fun sh => decide (sh.active = 0)) db.shards }

/-- `abort_staged` -/
def abortStaged : Sql Unit := do
  Sql.execute DB.clearPending
  Sql.execute DB.dropInactiveSlots
  Sql.execute DB.dropInactiveShards

/-! ## Rendering -/

/-- A dict with string keys and integer values, in insertion order. -/
abbrev Dict := List (String × Int)

/-- `d[key] = value` -/
def Dict.set (key : String) (value : Int) (d : Dict) : Dict :=
  if d.any (·.1 = key) then update (·.1 = key) (fun _ => (key, value)) d else d ++ [(key, value)]

/-- One entry of `profiles.json`. -/
structure Profile where
  name : String
  secret : String
  backend : String
  limits : Dict
deriving DecidableEq, Repr

/-- `row["pending_secret"] or row["secret"]`: an empty string is false. -/
def Slot.renderedSecret (s : Slot) : String :=
  match s.pendingSecret with
  | some v => if v = "" then s.secret else v
  | none => s.secret

def Slot.profile (limits : Dict) (s : Slot) : Profile where
  name := profileName s.shardId s.idx
  secret := s.renderedSecret
  backend := "127.0.0.1:" ++ toString s.port
  limits := limits

/-- `render_profiles` -/
def renderProfiles (limits : Dict) (db : DB) : List Profile :=
  (orderBy (·.port) db.slots).map (Slot.profile limits)

/-- The values that `render_shard_env` puts into its lines. -/
structure ShardEnv where
  statsPort : Int
  ports : List Int
  secrets : List String
  nat : String
  maxConnections : Int
deriving DecidableEq, Repr

/-- The lines of `render_shard_env`. -/
def ShardEnv.text (e : ShardEnv) : String :=
  "\n".intercalate
    ["# Generated by webproxy; do not edit.",
     "WPP_STATS_PORT=" ++ toString e.statsPort,
     "WPP_PORTS=" ++ ",".intercalate (e.ports.map toString),
     "WPP_SECRET_ARGS=" ++ " ".intercalate (e.secrets.map fun v => "-S " ++ v),
     "WPP_NAT_ARGS=" ++ e.nat,
     "WPP_MAX_CONNECTIONS=" ++ toString e.maxConnections] ++ "\n"

/-- `SELECT * FROM slots WHERE shard_id = ? ORDER BY idx` -/
def shardRows (shard : Int) (db : DB) : List Slot :=
  orderBy (·.idx) (db.slots.filter (·.shardId = shard))

def shardEnv (cfg : Config) (shard : Int) (rows : List Slot) : ShardEnv where
  statsPort := statsPort shard
  ports := rows.map (·.port)
  secrets := rows.map Slot.renderedSecret
  nat := if cfg.natInfo = "" then "" else "--nat-info " ++ cfg.natInfo
  maxConnections := cfg.mtproxyMaxConnections

/-- `render_shard_env` -/
def renderShardEnv (cfg : Config) (shard : Int) (db : DB) : Except Err String :=
  if (shardRows shard db).length ≠ shardSize then
    .error (.pool ("Шард " ++ toString shard ++ " неполный."))
  else .ok (shardEnv cfg shard (shardRows shard db)).text

/-- What `sizing.json` holds for the renderers. -/
structure Sizing where
  relayLimits : Dict
  relayTimeouts : List (String × String)
  profileLimits : Dict
deriving DecidableEq, Repr

structure RelayConfig where
  publicHostname : String
  basePath : String
  listen : String
  adminListen : String
  publicDir : String
  staticRoutes : String
  tokenKeyFile : String
  profilesFile : String
  limits : Dict
  timeouts : List (String × String)
deriving DecidableEq, Repr

/-- `render_relay_config` -/
def renderRelayConfig (cfg : Config) (sizing : Sizing) (profileCount : Nat) : RelayConfig where
  publicHostname := cfg.domain
  basePath := cfg.basePath
  listen := relayListen
  adminListen := relayAdmin
  publicDir := cfg.siteDir
  staticRoutes := "exact"
  tokenKeyFile := cfg.tokenKey
  profilesFile := cfg.profiles
  -- The pool may have grown past the installation-time estimate.
  limits := Dict.set "max_profiles"
    (max ((sizing.relayLimits.lookup "max_profiles").getD 0) profileCount) sizing.relayLimits
  timeouts := sizing.relayTimeouts

end WebProxyPanel
