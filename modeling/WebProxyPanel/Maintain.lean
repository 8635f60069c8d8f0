import WebProxyPanel.System
/-!
# Applying and maintaining the pool (`webproxy/pool.py:227-343`)

`apply` is cut where the source changes its way of handling failures: `renderAll`, `checkCandidates`
before the `try`, `applySteps` inside it, `rollBack` in its handler, `commitApplied` after it.
-/

namespace WebProxyPanel
open Effects

/-- The arguments that stay the same in one call of `apply`. -/
structure ApplyArgs where
  cfg : Config
  sizing : Sizing
  newShards : List Int
  /-- `sorted(set(restart_shards) | set(new_shards))` -/
  shards : List Int
deriving DecidableEq, Repr

/-- `{shard: render_shard_env(conn, cfg, shard).encode("utf-8") for shard in shards}` -/
def renderEnvs (cfg : Config) : List Int → P (List (Path × Content))
  | [] => .ret []
  | shard :: shards => do
    let text ← .call (.query (renderShardEnv cfg shard))
    let text ← ofExcept text
    let rest ← renderEnvs cfg shards
    pure ((.shardEnv shard, .text text) :: rest)

/-- `{path: system.read_file(path) for path in targets}` -/
def readFiles : List Path → P (List (Path × Option Content))
  | [] => .ret []
  | path :: paths => do
    let data ← .call (.readFile path)
    let rest ← readFiles paths
    pure ((path, data) :: rest)

/-- `restore` -/
def restore (previous : List (Path × Option Content)) : P Unit :=
  previous.forM fun x => match x.2 with
    | none => .call (.removeFile x.1)
    | some data => .call (.writeFile x.1 data)

/-- What `apply` renders before it writes anything. -/
structure Rendered where
  profiles : List Profile
  relayConfig : RelayConfig
  envs : List (Path × Content)
deriving DecidableEq, Repr

/-- `targets`, in the order of the dict -/
def Rendered.targets (r : Rendered) : List (Path × Content) :=
  (.profiles, .profiles r.profiles) :: (.relayConfig, .relayConfig r.relayConfig) :: r.envs

def renderAll (a : ApplyArgs) : P Rendered := do
  let profiles ← .call (.query (renderProfiles a.sizing.profileLimits))
  let envs ← renderEnvs a.cfg a.shards
  pure ⟨profiles, renderRelayConfig a.cfg a.sizing profiles.length, envs⟩

/-- Both candidates written, checked and removed again. -/
def checkCandidates (r : Rendered) : P (Bool × String) := do
  Prog.call (.writeFile (.candidate .profiles) (.profiles r.profiles))
  Prog.call (.writeFile (.candidate .relayConfig) (.relayConfig r.relayConfig))
  (Prog.call (.relayCheck (.candidate .relayConfig) (.candidate .profiles))).tryFinally do
    Prog.call (.removeFile (.candidate .profiles))
    .call (.removeFile (.candidate .relayConfig))

/-- The body of the `try`. -/
def applySteps (a : ApplyArgs) (targets : List (Path × Content)) : P Unit := do
  targets.forM fun x => .call (.writeFile x.1 x.2)
  Prog.runIf (a.newShards ≠ []) do
    poolSync
    a.newShards.forM fun shard => .call (.enableShard shard)
  a.shards.forM fun shard => .call (.restartShard shard)
  .call .restartRelay
  let healthy ← .call (.waitHealthy a.shards)
  Prog.runIf (¬ healthy)
    (.raise (.pool "Relay или шарды не поднялись после применения конфигурации."))

/-- The handler of the `try`. -/
def rollBack (a : ApplyArgs) (previous : List (Path × Option Content)) (error : Err) : P Unit := do
  bestEffort (restore previous)
  a.newShards.forM fun shard => bestEffort do
    Prog.call (.stopShard shard)
    .call (.disableShard shard)
  transaction (sql abortStaged)
  bestEffort do
    (a.shards.filter (· ∉ a.newShards)).forM fun shard => Prog.call (.restartShard shard)
    .call .restartRelay
  Prog.runIf (a.newShards ≠ []) (bestEffort poolSync)
  if error.isPoolError then .raise error
  else .raise (.pool ("Не удалось применить конфигурацию: " ++ error.text))

def joinOr (shards : List Int) : String :=
  if shards = [] then "-" else ",".intercalate (shards.map toString)

/-- The final transaction. -/
def commitApplied (a : ApplyArgs) : P Unit :=
  transaction <| sql do
    commitStaged
    logEvent "pool_applied" none ("shards=" ++ joinOr a.shards ++ " new=" ++ joinOr a.newShards)

/-- `apply` from the reading of the old files on. -/
def applyTargets (a : ApplyArgs) (targets : List (Path × Content)) : P Unit := do
  let previous ← readFiles (targets.map (·.1))
  (applySteps a targets).tryCatch fun e => rollBack a previous e
  commitApplied a

/-- `apply` -/
def apply (cfg : Config) (sizing : Sizing) (restartShards newShards : List Int) : P Unit := do
  let a : ApplyArgs := ⟨cfg, sizing, newShards, sortedSet (restartShards ++ newShards)⟩
  let rendered ← renderAll a
  let (ok, message) ← checkCandidates rendered
  if ¬ ok then do
    transaction (sql abortStaged)
    .raise (.pool ("Проверка конфигурации relay не прошла: " ++ message))
  else applyTargets a rendered.targets

/-- `grow_shards` of `maintain` when it is `None`. -/
def automaticGrowth (db : DB) : Int :=
  let c := counts db
  let freeAfter : Int := (c.free : Int) + c.dirty
  let missing : Int := max 0 ((lowWater db : Int) - freeAfter)
  (missing + shardSize - 1) / shardSize

/-- The number of shards to create. -/
def growCount : Option Int → Sql Int
  | some n => pure n
  | none => Sql.query automaticGrowth

/-- The statements of the first transaction of `maintain`. Leftovers of an apply interrupted by a
crash are discarded first. -/
def stageRows (growShards : Option Int) : Sql (List Int × List Int) := do
  abortStaged
  let restart ← stageDirty
  let grow ← growCount growShards
  let new ← createShards grow
  pure (restart, new)

/-- `SELECT COUNT(*) FROM slots WHERE pending_secret IS NOT NULL` -/
def pendingCount (db : DB) : Int := (db.slots.filter fun s => s.pendingSecret.isSome).length

/-- The report of `maintain`. -/
structure Report where
  rotated : Int
  newShards : Int
deriving DecidableEq, Repr

/-- `maintain` -/
def maintain (cfg : Config) (sizing : Sizing) (growShards : Option Int) : P Report :=
  applyLock do
    let (restart, new) ← transaction (sql (stageRows growShards))
    if restart = [] ∧ new = [] then pure ⟨0, 0⟩
    else do
      let rotated ← .call (.query pendingCount)
      apply cfg sizing restart new
      pure ⟨rotated, new.length⟩

end WebProxyPanel
