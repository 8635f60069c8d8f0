import Mathlib.Data.Finset.Lattice.Basic
import Mathlib.Data.Finset.SDiff
import Mathlib.Data.Finset.Erase
import Mathlib.Tactic.Simps.Basic
import WebProxyPanel.Lib.Prog
import WebProxyPanel.Pool
/-!
# The world a process acts on, and transactions

| here | there |
| --- | --- |
| `Action`, `perform` | the SQLite connection, `System` (system.py:51-189), and the steps of `wppctl` (ctl.py:175-279) |
| `transaction` | db.py:167-184 |
| `syncFirewall` | `System.sync_firewall`, that is `cmd_sync` (ctl.py:268-279) with `_query_db` and `read_db` |
| `poolSync`, `applyLock` | pool.py:207-224 |
| `change` | `_change` (users.py:32-57) |

The committed database, the firewall's set, files and units are shared by all processes; a write
transaction works on its own copy. `sync` reads the committed database in three separate `SELECT`s
and replaces the table later. A call that fails may have had its effect.
-/

namespace WebProxyPanel
open Effects

/-! ## Shared state -/

inductive Path where
  | profiles
  | relayConfig
  | shardEnv (shard : Int)
  /-- `path + ".new"` -/
  | candidate (path : Path)
deriving DecidableEq, Repr

/-- What a file holds; `_dump` and `.encode` lose nothing. -/
inductive Content where
  | profiles (ps : List Profile)
  | relayConfig (c : RelayConfig)
  | text (t : String)
deriving DecidableEq, Repr

/-- A `wppctl block` or `wppctl unblock`. -/
inductive FwCall where
  | block (ports : List Int)
  | unblock (ports : List Int)
deriving DecidableEq, Repr

def FwCall.ports : FwCall → List Int
  | .block ps | .unblock ps => ps

/-- `nft add element`; `nft delete element` of those that are present -/
def FwCall.run : FwCall → Finset Int → Finset Int
  | .block ps, f => f ∪ ps.toFinset
  | .unblock ps, f => f \ ps.toFinset

/-- The blocked set after some calls. -/
def runCalls (cs : List FwCall) (f : Finset Int) : Finset Int := cs.foldl (fun f c => c.run f) f

/-- An open write transaction. -/
structure Tx where
  /-- The database as its connection sees it. -/
  copy : DB
  /-- History: the firewall calls made in it, whether one of them or a statement failed, and the
  random values it drew. -/
  issued : List FwCall
  failed : Bool
  drawn : List String

structure World where
  /-- The committed database. -/
  db : DB
  writer : Option Tx
  /-- `pool.lock` is held. -/
  poolLock : Bool
  /-- Set `blocked` of table `inet wpp`. -/
  blocked : Finset Int
  files : Path → Option Content
  /-- The enabled `wpp-mtproxy@` units. -/
  units : Finset Int
  /-- History: a table replacement has changed a port that a call of the open transaction named. -/
  overwritten : Bool
  /-- History: every database committed so far, the latest first. -/
  commits : List DB

/-- What a process asks of the outside, for the record. -/
inductive Call where
  | now
  | begin_
  | commit
  | rollback
  | statements
  | select
  | fwCall (call : FwCall)
  | ctlSelect
  | ctlCurrent
  | ctlReplace
  | writeFile (path : Path) (data : Content)
  | readFile (path : Path)
  | removeFile (path : Path)
  | relayCheck
  | restartRelay
  | restartShard (shard : Int)
  | stopShard (shard : Int)
  | enableShard (shard : Int)
  | disableShard (shard : Int)
  | waitHealthy (shards : List Int)
  | lock
  | unlock
deriving DecidableEq, Repr

/-- How a call ended: as it should, with the answer no, or with an exception. -/
inductive Result where | ok | no | raised
deriving DecidableEq, Repr

structure Entry where
  call : Call
  result : Result
deriving DecidableEq, Repr

/-- What a process knows of itself. -/
structure Own where
  /-- `conn.in_transaction` -/
  inTx : Bool
  /-- `system.firewall_calls` -/
  firewallCalls : Nat
  /-- It holds `pool.lock`. -/
  locked : Bool
  /-- History: a transaction of it with firewall calls was rolled back, and it has not replaced the
  table since. -/
  owes : Bool
  /-- History: it has replaced the table inside a transaction since it took `pool.lock`. -/
  synced : Bool
  /-- History: the ports it has asked to unblock. -/
  unblocked : List Int
  /-- History: its calls, in order. -/
  trace : List Entry
deriving DecidableEq, Repr

/-- A process between two operations. -/
def Own.idle (firewallCalls : Nat) : Own := ⟨false, firewallCalls, false, false, false, [], []⟩

abbrev State := World × Own

/-! ## Actions -/

inductive Action : Type → Type 1 where
  /-- `db.now()` outside a transaction -/
  | now : Action Int
  /-- `conn.in_transaction` -/
  | inTransaction : Action Bool
  | beginImmediate : Action Unit
  | commit : Action Unit
  | rollback : Action Unit
  /-- Statements inside a transaction. -/
  | sql {α : Type} (m : Sql α) : Action α
  /-- One `SELECT`. -/
  | query {α : Type} (f : DB → α) : Action α
  /-- `system.firewall_calls` -/
  | firewallCalls : Action Nat
  /-- `System.block` and `System.unblock` of some ports. -/
  | fwCall (call : FwCall) : Action Unit
  /-- A `SELECT` of wppctl on its own read-only connection. -/
  | ctlSelect (f : DB → List Int) : Action (List Int)
  /-- `current_blocked` -/
  | ctlCurrent : Action (Finset Int)
  /-- `nft -f -` with `build_ruleset` -/
  | ctlReplace (ports blocked : List Int) : Action Unit
  | writeFile (path : Path) (data : Content) : Action Unit
  | readFile (path : Path) : Action (Option Content)
  | removeFile (path : Path) : Action Unit
  | relayCheck (configPath profilesPath : Path) : Action (Bool × String)
  | restartRelay : Action Unit
  | restartShard (shard : Int) : Action Unit
  | stopShard (shard : Int) : Action Unit
  | enableShard (shard : Int) : Action Unit
  | disableShard (shard : Int) : Action Unit
  | waitHealthy (shards : List Int) : Action Bool
  /-- `flock(LOCK_EX)` and `flock(LOCK_UN)` on `pool.lock` -/
  | lock : Action Unit
  | unlock : Action Unit

/-- The entry of an action in the record; what a process asks of itself leaves none. -/
def Action.call? {β : Type} : Action β → Option Call
  | .now => some .now
  | .inTransaction => none
  | .beginImmediate => some .begin_
  | .commit => some .commit
  | .rollback => some .rollback
  | .sql _ => some .statements
  | .query _ => some .select
  | .firewallCalls => none
  | .fwCall call => some (.fwCall call)
  | .ctlSelect _ => some .ctlSelect
  | .ctlCurrent => some .ctlCurrent
  | .ctlReplace _ _ => some .ctlReplace
  | .writeFile p d => some (.writeFile p d)
  | .readFile p => some (.readFile p)
  | .removeFile p => some (.removeFile p)
  | .relayCheck _ _ => some .relayCheck
  | .restartRelay => some .restartRelay
  | .restartShard k => some (.restartShard k)
  | .stopShard k => some (.stopShard k)
  | .enableShard k => some (.enableShard k)
  | .disableShard k => some (.disableShard k)
  | .waitHealthy ks => some (.waitHealthy ks)
  | .lock => some .lock
  | .unlock => some .unlock

/-- What the outside decides at an action. -/
inductive Choice where
  /-- The action succeeds. -/
  | ok
  /-- Statements run with these inputs. -/
  | inputs (inp : Inputs)
  /-- The clock. -/
  | time (t : Int)
  /-- The relay's check or the health wait answers. -/
  | answer (yes : Bool) (message : String)
  /-- The action raises; `done`: it had its effect. -/
  | fail (message : String) (done : Bool)
  /-- A statement, or COMMIT, raises. `gone`: SQLite has rolled the transaction back by itself; else
  it stays open with whatever the statements before have done. -/
  | sqlFail (message : String) (gone : Bool) (left : DB)

namespace World

@[simps] def begin_ (w : World) : World :=
  { w with writer := some ⟨w.db, [], false, []⟩, overwritten := false }

@[simps] def commit (tx : Tx) (w : World) : World :=
  { w with db := tx.copy, writer := none, commits := tx.copy :: w.commits }

@[simps] def rollback (w : World) : World := { w with writer := none }

/-- A firewall call, noted in the open transaction. -/
@[simps] def fwCall (call : FwCall) (fails done : Bool) (w : World) : World :=
  { w with
    blocked := if done then call.run w.blocked else w.blocked
    writer := w.writer.map fun tx =>
      { tx with issued := tx.issued ++ [call], failed := tx.failed || fails } }

/-- The blocked set of `build_ruleset`. -/
def loadedSet (ports blocked : List Int) : Finset Int := blocked.toFinset ∩ ports.toFinset

/-- The ports named by the firewall calls of the open transaction. -/
def namedPorts (w : World) : List Int :=
  match w.writer with
  | some tx => tx.issued.flatMap FwCall.ports
  | none => []

/-- `nft -f` is atomic. -/
@[simps] def replace (inTx : Bool) (ports blocked : List Int) (w : World) : World :=
  { w with
    blocked := loadedSet ports blocked
    overwritten := w.overwritten ||
      (!inTx && w.namedPorts.any fun p => decide (p ∈ loadedSet ports blocked) !=
        decide (p ∈ w.blocked)) }

@[simps] def setFile (path : Path) (data : Option Content) (w : World) : World :=
  { w with files := fun p => if p = path then data else w.files p }

@[simps] def setUnits (units : Finset Int) (w : World) : World := { w with units := units }

@[simps] def setLock (held : Bool) (w : World) : World := { w with poolLock := held }

/-- What a process whose `in_transaction` is known sees in a `SELECT`. -/
def seen (inTx : Bool) (w : World) : DB :=
  match inTx, w.writer with
  | true, some tx => tx.copy
  | _, _ => w.db

end World

/-- The transaction ends without effect; firewall calls made in it are now out of step. -/
@[simps] def Own.rolledBack (tx : Tx) (l : Own) : Own :=
  { l with inTx := false, owes := l.owes || !tx.issued.isEmpty }

/-- The ports that a call asks to unblock. -/
def FwCall.opens : FwCall → List Int
  | .block _ => []
  | .unblock ps => ps

/-- `self.firewall_calls += 1` comes before the attempt. -/
@[simps] def Own.called (call : FwCall) (l : Own) : Own :=
  { l with firewallCalls := l.firewallCalls + 1, unblocked := l.unblocked ++ call.opens }

/-- The process has replaced the table. -/
@[simps] def Own.replaced (l : Own) : Own := { l with owes := false, synced := l.synced || l.inTx }

/-- The own transaction. -/
def ownTx (s : State) : Option Tx := if s.2.inTx then s.1.writer else none

/-- An action with an effect on the world alone, which may fail with or without it. -/
def plain (c : Choice) (effect : World → World) (s : State) : Option (Except Err Unit × State) :=
  match c with
  | .ok => some (.ok (), (effect s.1, s.2))
  | .fail m done => some (.error (.system m), (if done then effect s.1 else s.1, s.2))
  | _ => none

/-- An answer that changes nothing. -/
def read {β : Type} (c : Choice) (b : β) (e : String → Err) (s : State) :
    Option (Except Err β × State) :=
  match c with
  | .ok => some (.ok b, s)
  | .fail m _ => some (.error (e m), s)
  | _ => none

/-- Statements in the own transaction. -/
def runSql {α : Type} (c : Choice) (m : Sql α) (tx : Tx) (s : State) :
    Option (Except Err α × State) :=
  match c with
  | .inputs inp =>
    if ¬ inp.tokens.all isTokenHex then none
    else match m tx.copy inp with
    | .ok a db ⟨[], []⟩ =>
      some (.ok a, ({ s.1 with writer := some { tx with copy := db, drawn := tx.drawn ++ inp.tokens } }, s.2))
    | .error e db ⟨[], []⟩ =>
      some (.error e, ({ s.1 with writer := some { tx with copy := db, drawn := tx.drawn ++ inp.tokens } }, s.2))
    | _ => none
  | .sqlFail m gone left =>
    if gone then some (.error (.sqlite m), (s.1.rollback, s.2.rolledBack tx))
    else some (.error (.sqlite m), ({ s.1 with writer := some { tx with copy := left, failed := true } }, s.2))
  | _ => none

/-- What an action does and answers. -/
def respond (c : Choice) {β : Type} (a : Action β) (s : State) : Option (Except Err β × State) :=
  let (w, l) := s
  match a with
  | .now => match c with
    | .time t => some (.ok t, s)
    | _ => none
  | .inTransaction => match c with
    | .ok => some (.ok l.inTx, s)
    | _ => none
  | .beginImmediate => match c with
    -- It waits while another connection writes, up to the busy timeout.
    | .ok => match w.writer with
      | none => some (.ok (), (w.begin_, { l with inTx := true }))
      | some _ => none
    | .fail m _ => some (.error (.sqlite m), s)
    | _ => none
  | .commit => match ownTx s, c with
    | some tx, .ok => some (.ok (), (w.commit tx, { l with inTx := false }))
    | some tx, .sqlFail m gone _ =>
      some (.error (.sqlite m), if gone then (w.rollback, l.rolledBack tx) else s)
    | none, .ok => some (.error (.sqlite "cannot commit - no transaction is active"), s)
    | _, _ => none
  | .rollback => match ownTx s, c with
    | some tx, .ok => some (.ok (), (w.rollback, l.rolledBack tx))
    | none, .ok => some (.error (.sqlite "cannot rollback - no transaction is active"), s)
    | _, _ => none
  | .sql m => match ownTx s with
    | some tx => runSql c m tx s
    | none => none
  | .query f => read c (f (w.seen l.inTx)) .sqlite s
  | .firewallCalls => match c with
    | .ok => some (.ok l.firewallCalls, s)
    | _ => none
  | .fwCall call => match c with
    | .ok => some (.ok (), (w.fwCall call false true, l.called call))
    | .fail m done => some (.error (.system m), (w.fwCall call true done, l.called call))
    | _ => none
  | .ctlSelect f => read c (f w.db) .system s
  | .ctlCurrent => read c w.blocked .system s
  | .ctlReplace ports blocked => match c with
    | .ok =>
      some (.ok (), (w.replace l.inTx ports blocked, l.replaced))
    | .fail m done =>
      some (.error (.system m), (if done then w.replace l.inTx ports blocked else w, l))
    | _ => none
  | .writeFile p d => plain c (World.setFile p (some d)) s
  | .readFile p => read c (w.files p) .system s
  | .removeFile p => plain c (World.setFile p none) s
  | .relayCheck _ _ => match c with
    | .answer b m => some (.ok (b, m), s)
    | .fail m _ => some (.error (.system m), s)
    | _ => none
  | .restartRelay => plain c id s
  | .restartShard _ => plain c id s
  | .stopShard _ => plain c id s
  | .enableShard k => plain c (fun w => w.setUnits (insert k w.units)) s
  | .disableShard k => plain c (fun w => w.setUnits (w.units.erase k)) s
  | .waitHealthy _ => match c with
    | .answer b _ => some (.ok b, s)
    | .fail m _ => some (.error (.system m), s)
    | _ => none
  | .lock => match c with
    | .ok =>
      if w.poolLock then none else
        some (.ok (), (w.setLock true, { l with locked := true, synced := false }))
    | .fail m _ => some (.error (.system m), s)
    | _ => none
  | .unlock => match c with
    | .ok => some (.ok (), (w.setLock false, { l with locked := false, synced := false }))
    | _ => none

def Choice.result : Choice → Result
  | .fail _ _ | .sqlFail _ _ _ => .raised
  | .answer false _ => .no
  | _ => .ok

/-- The entries that an action adds to the record. -/
def entries (c : Choice) {β : Type} (a : Action β) : List Entry :=
  (a.call?.map fun call => ⟨call, c.result⟩).toList

@[simps] def Own.note (es : List Entry) (l : Own) : Own := { l with trace := l.trace ++ es }

def perform (c : Choice) {β : Type} (a : Action β) (s : State) : Option (Except Err β × State) :=
  (respond c a s).map fun x => (x.1, (x.2.1, x.2.2.note (entries c a)))

/-- The semantics of actions. -/
def sem : Sem Action Err Choice State where
  perform c := fun {_} a s => perform c a s

/-- The process stops: its transaction is rolled back and its lock released. -/
def crash (s : State) : State :=
  ((if s.2.locked then World.setLock false else id) (if s.2.inTx then s.1.rollback else
    s.1), Own.idle 0)

/-! ## Programs -/

abbrev P (α : Type) := Prog Action Err α

/-- An error of the Python between two calls. -/
def ofExcept {α : Type} : Except Err α → P α
  | .ok a => .ret a
  | .error e => .raise e

/-- `try p except Exception: pass` -/
def bestEffort (p : P Unit) : P Unit := p.tryCatch fun _ => .ret ()

/-- Statements in the transaction around them. -/
def sql {α : Type} (m : Sql α) : P α := .call (.sql m)

/-- `sorted(set(ports))` -/
def sortedSet (ports : List Int) : List Int := Table.orderBy id ports.dedup

/-- `System.block`: no call for an empty set. -/
def block (ports : List Int) : P Unit :=
  if sortedSet ports = [] then .ret () else .call (.fwCall (.block (sortedSet ports)))

/-- `System.unblock` -/
def unblock (ports : List Int) : P Unit :=
  if sortedSet ports = [] then .ret () else .call (.fwCall (.unblock (sortedSet ports)))

/-- `transaction`: nested use joins the outer transaction. -/
def transaction {α : Type} (body : P α) : P α := do
  if ← .call .inTransaction then body
  else do
    .call .beginImmediate
    let a ← body.tryCatch fun e => do
      .call .rollback
      .raise e
    (Prog.call .commit).tryCatch fun e => do
      let open_ ← .call .inTransaction
      Prog.runIf open_ (.call .rollback)
      .raise e
    pure a

def portInRange (p : Int) : Bool := slotPortBase ≤ p && p ≤ slotPortLast
def shardInRange (k : Int) : Bool := 0 ≤ k && k < maxShards

/-- `System.sync_firewall`: `_query_db`, the checks of `read_db`, `current_blocked`, then the new
table. -/
def syncFirewall : P Unit := do
  let ports ← .call (.ctlSelect allPorts)
  let blocked ← .call (.ctlSelect blockedPorts)
  let shards ← .call (.ctlSelect allShards)
  if ¬ ports.all portInRange then
    .raise (.system "wppctl sync: wppctl: database contains an invalid port")
  else if ¬ shards.all shardInRange then
    .raise (.system "wppctl sync: wppctl: database contains an invalid shard")
  else do
    let _ ← Prog.call .ctlCurrent
    .call (.ctlReplace ports blocked)

/-- `_sync_firewall`: under the write lock. -/
def poolSync : P Unit := transaction syncFirewall

/-- `_change`: a transaction whose firewall calls are undone on failure. -/
def change {α : Type} (body : P α) : P α := do
  if ← .call .inTransaction then body
  else do
    let callsBefore ← .call .firewallCalls
    (transaction body).tryCatch fun e => do
      let calls ← .call .firewallCalls
      Prog.runIf (calls ≠ callsBefore) (bestEffort syncFirewall)
      .raise e

/-- `apply_lock` -/
def applyLock {α : Type} (body : P α) : P α := do
  .call .lock
  body.tryFinally (.call .unlock)

end WebProxyPanel
