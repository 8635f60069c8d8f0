import WebProxyPanel.Lib.Interleave
/-!
# Schema migrations

`migrate` (`db.py`) over any list of scripts, run by any number of connections to one file. A
statement of a script is opaque: `run` says what it makes of a schema, or that it fails on it.

* `Db`, `Store`, `Conn` — the rows that a connection sees, the file with its write lock, one
  connection.
* `perform` — SQLite: reads, BEGIN IMMEDIATE, which waits for the lock, statements, COMMIT; each may
  fail, and SQLite may roll the transaction back when it does.
* `migrate` — the code.
-/

namespace WebProxyPanel.Migrate
open Effects

/-- The database as a connection sees it. `ran` are the statements of scripts that made it, in
order. -/
structure Db (Stmt S : Type) where
  schema : S
  /-- `PRAGMA user_version` -/
  version : Int
  ran : List Stmt

/-- The database file. -/
structure Store (Stmt S : Type) where
  db : Db Stmt S
  /-- A connection has a write transaction. -/
  locked : Bool

inductive Failure where
  | runtime (message : String)
  | index
  /-- `sqlite3.OperationalError` -/
  | sqlite (message : String)
deriving DecidableEq, Repr

/-- A connection. -/
structure Conn (Stmt S : Type) where
  /-- What the open transaction has made of the database. -/
  tx : Option (Db Stmt S)
  /-- The `user_version` that the connection last read or wrote. -/
  seen : Int
  /-- A statement of the last call of `migrate` has failed. -/
  failed : Bool
  /-- How the last call of `migrate` ended. -/
  outcome : Option (Except Failure Int)

inductive Statement (Stmt : Type) where
  | beginImmediate
  | plain (st : Stmt)
  | setUserVersion (version : Int)
  | commit

inductive Action (Stmt : Type) : Type → Type 1 where
  /-- `PRAGMA user_version` -/
  | userVersion : Action Stmt Int
  /-- The COMMIT of `executescript` if a transaction is open. -/
  | commitOpen : Action Stmt Unit
  | execute (s : Statement Stmt) : Action Stmt Unit
  /-- `migrate` returns to its caller, or raises. -/
  | report (out : Except Failure Int) : Action Stmt Unit

/-- What the outside decides about an action. -/
inductive Choice where
  | ok
  /-- It fails; `gone`: SQLite rolls the transaction back with it. -/
  | fail (message : String) (gone : Bool)
deriving DecidableEq, Repr

section Sqlite
variable {Stmt S : Type} (run : Stmt → S → Option S)

abbrev State (Stmt S : Type) := Store Stmt S × Conn Stmt S

/-- The rows that a connection sees. -/
def view (s : State Stmt S) : Db Stmt S := s.2.tx.getD s.1.db

/-- The write transaction becomes the database. -/
def commitTx (t : Db Stmt S) (s : State Stmt S) : State Stmt S :=
  (⟨t, false⟩, { s.2 with tx := none })

/-- A failed statement. -/
def failure (gone : Bool) (s : State Stmt S) : State Stmt S :=
  match s.2.tx with
  | none => (s.1, { s.2 with failed := true })
  | some _ =>
    if gone then ({ s.1 with locked := false }, { s.2 with tx := none, failed := true })
    else (s.1, { s.2 with failed := true })

/-- One statement of a script in the transaction `t`. -/
def inTransaction (t : Db Stmt S) (s : State Stmt S) :
    Statement Stmt → Except Failure Unit × State Stmt S
  | .beginImmediate =>
    (.error (.sqlite "cannot start a transaction within a transaction"), failure false s)
  | .plain st => match run st t.schema with
    | some schema =>
      (.ok (), (s.1, { s.2 with tx := some { t with schema := schema, ran := t.ran ++ [st] } }))
    | none => (.error (.sqlite "the statement fails"), failure false s)
  | .setUserVersion version =>
    (.ok (), (s.1, { s.2 with tx := some { t with version := version }, seen := version }))
  | .commit => (.ok (), commitTx t s)

def perform (c : Choice) {β : Type} (a : Action Stmt β) (s : State Stmt S) :
    Option (Except Failure β × State Stmt S) :=
  match a, c with
  | .userVersion, .ok => some (.ok (view s).version, (s.1, ⟨s.2.tx, (view s).version, false, none⟩))
  | .userVersion, .fail m gone =>
    some (.error (.sqlite m), failure gone (s.1, { s.2 with outcome := none }))
  | .commitOpen, .ok => some (.ok (), match s.2.tx with | none => s | some t => commitTx t s)
  | .commitOpen, .fail m gone => s.2.tx.map fun _ => (.error (.sqlite m), failure gone s)
  | .execute .beginImmediate, .ok => match s.2.tx with
    | some t => some (inTransaction run t s .beginImmediate)
    -- It waits while another connection writes, up to the busy timeout.
    | none =>
      if s.1.locked then none else
        some (.ok (), ({ s.1 with locked := true }, { s.2 with tx := some s.1.db }))
  | .execute _, .fail m gone => some (.error (.sqlite m), failure gone s)
  -- A script has no statement outside its transaction.
  | .execute st, .ok => s.2.tx.map fun t => inTransaction run t s st
  | .report out, .ok => some (.ok (), (s.1, { s.2 with outcome := some out }))
  | .report _, .fail _ _ => none

def sqlite : Sem (Action Stmt) Failure Choice (State Stmt S) where
  perform c := fun {_} a s => perform run c a s

/-- The process stops: its connection is closed. -/
def close (s : State Stmt S) : State Stmt S :=
  (match s.2.tx with | none => s.1 | some _ => { s.1 with locked := false }, ⟨none, 0, false, none⟩)

end Sqlite

/-! ## The code -/

section Code
variable {Stmt : Type}

abbrev P (Stmt α : Type) := Prog (Action Stmt) Failure α

/-- `xs[i]` of Python, from the end if `i` is negative. -/
def item {α : Type} (xs : List α) (i : Int) : Option α :=
  if 0 ≤ i then xs[i.toNat]? else if -xs.length ≤ i then xs[(xs.length + i).toNat]? else none

/-- `executescript` -/
def executescript (statements : List (Statement Stmt)) : P Stmt Unit := do
  .call .commitOpen
  statements.forM fun s => .call (.execute s)

/-- `BEGIN IMMEDIATE; %s PRAGMA user_version=%d; COMMIT;` -/
def statements (script : List Stmt) (version : Int) : List (Statement Stmt) :=
  .beginImmediate :: (script.map .plain ++ [.setUserVersion version, .commit])

/-- The turns of `while version < SCHEMA_VERSION` that are left. -/
def upgrade (migrations : List (List Stmt)) : Nat → Int → P Stmt Int
  | 0, version => .ret version
  | k + 1, version => match item migrations version with
    | none => .raise .index
    | some script => do
      executescript (statements script (version + 1))
      upgrade migrations k (version + 1)

/-- `migrate` -/
def migrate (migrations : List (List Stmt)) : P Stmt Int := do
  let version ← .call .userVersion
  if version > migrations.length then
    .raise (.runtime ("database schema " ++ toString version ++ " is newer than this code (" ++
      toString migrations.length ++ ")"))
  else upgrade migrations (migrations.length - version).toNat version

/-- A call of `migrate`, up to its caller. -/
def call (migrations : List (List Stmt)) : P Stmt Unit :=
  ((migrate migrations).bind fun version => .call (.report (.ok version))).tryCatch fun e =>
    .call (.report (.error e))

/-- The connections to one file; each may call `migrate` at any time. -/
def system {S : Type} (run : Stmt → S → Option S) (migrations : List (List Stmt)) :
    System Unit (Action Stmt) Failure Choice (Store Stmt S) (Conn Stmt S) where
  sem := sqlite run
  program _ := call migrations
  stop := close

/-- The file before the first call. -/
def opened {S ι : Type} (schema : S) (version : Int) :
    Configuration ι Unit (Action Stmt) Failure (Store Stmt S) (Conn Stmt S) :=
  ⟨⟨⟨schema, version, []⟩, false⟩, fun _ => ⟨none, 0, false, none⟩, fun _ => none⟩

end Code
end WebProxyPanel.Migrate
