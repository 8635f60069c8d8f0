import WebProxyPanel.Lib.Answers
import WebProxyPanel.Users
/-!
# The privileged entry point (`webproxy/ctl.py`)

Every call that leaves the process is an action, and what it answers is anybody's guess: the tools,
the database and the child that reads it are outside. A command line is kept as words before they
are rendered; `Word.text` and `Ruleset.text` are the format strings of the source.

| here | there |
| --- | --- |
| `parsePort`, `parseShard`, `parsePorts` | ctl.py:75-93 |
| `buildRuleset`, `parseCounters`, `parseSetElements`, `killFilters` | :98-170 |
| `currentBlocked`, `kill`, `cmdBlock`, `cmdUnblock` | :175-203 |
| `queryDb`, `readDb` | :206-265 |
| `cmdSync`, `cmdCounters`, `unitFor`, `cmdSystemctl`, `cmdStatus`, `main` | :268-343 |

`System` models the effect of `block`, `unblock` and `sync` as seen by the other processes; here is
what the program itself does.
-/

namespace WebProxyPanel
namespace Ctl
open Effects

/-! ## Command lines -/

inductive Tool where | nft | ss | systemctl
deriving DecidableEq, Repr

def Tool.name : Tool → String
  | .nft => "nft"
  | .ss => "ss"
  | .systemctl => "systemctl"

/-- A path that `shutil.which` answered for the tool. -/
structure ToolPath (t : Tool) where
  path : String

/-- `build_ruleset` before it is written out. -/
structure Ruleset where
  ports : List Int
  blocked : List Int
deriving DecidableEq, Repr

inductive Word where
  | lit (s : String)
  /-- `"{ %s }" % _elements(map(str, ports))` -/
  | elements (ports : List Int)
  /-- One of `kill_filters`. -/
  | filter (ports : List Int)
  /-- `"wpp-mtproxy@%d.service" % shard` -/
  | shardUnit (shard : Int)
deriving DecidableEq, Repr

/-- `_elements` -/
def elements (values : List String) : String := ", ".intercalate values

def Word.text : Word → String
  | .lit s => s
  | .elements ports => "\x7b " ++ Ctl.elements (ports.map toString) ++ " \x7d"
  | .filter ports =>
    "( " ++ " or ".intercalate (ports.map fun p => "sport = :" ++ toString p ++ " or dport = :" ++
      toString p) ++ " )"
  | .shardUnit shard => "wpp-mtproxy@" ++ toString shard ++ ".service"

/-- The text of `build_ruleset`. -/
def Ruleset.text (r : Ruleset) : String :=
  let counter (p : Int) (direction : String) : String := "c" ++ toString p ++ "_" ++ direction
  let setElements := if r.blocked = [] then "" else
      " elements = \x7b " ++ elements (r.blocked.map toString) ++ " \x7d"
  let map (direction : String) : String :=
    if r.ports = [] then "  map cnt_" ++ direction ++ " \x7b type inet_service : counter; \x7d"
    else
      let mapping := elements
          (r.ports.map fun p => toString p ++ " : \"" ++ counter p direction ++ "\"")
      "  map cnt_" ++ direction ++ " \x7b type inet_service : counter; elements = \x7b " ++
        mapping ++ " \x7d \x7d"
  "\n".intercalate
    (["table inet wpp", "delete table inet wpp", "table inet wpp \x7b"] ++
      r.ports.flatMap (fun p => ["  counter " ++ counter p "up" ++ " \x7b \x7d",
        "  counter " ++ counter p "down" ++ " \x7b \x7d"]) ++
      ["  set blocked \x7b type inet_service;" ++ setElements ++ " \x7d"] ++
      ["up", "down"].map map ++
      ["  chain out \x7b",
       "    type filter hook output priority -10; policy accept;",
       "    oifname \"lo\" tcp dport @blocked reject with tcp reset",
       "    oifname \"lo\" tcp dport 20000-29999 counter name tcp dport map @cnt_up",
       "  \x7d",
       "  chain in \x7b",
       "    type filter hook input priority -10; policy accept;",
       "    iifname \"lo\" tcp sport 20000-29999 counter name tcp sport map @cnt_down",
       "    iifname != \"lo\" tcp dport \x7b 8080, 8081, 8090, 19000-29999 \x7d drop",
       "  \x7d",
       "\x7d"]) ++ "\n"

/-- `build_ruleset` -/
def buildRuleset (ports blocked : List Int) : Ruleset :=
  let ports := sortedSet ports
  ⟨ports, sortedSet (blocked.filter (· ∈ ports))⟩

/-! ## Actions -/

/-- The exceptions of the program, and those of the calls it makes. -/
inductive Exn where
  | ctl (message : String)
  | value
  | type
  | attribute
  | overflow
  | os
  | timeout
  | sqlite
deriving DecidableEq, Repr

/-- What `subprocess.run` returns. -/
structure Proc where
  returncode : Int
  stdout : String
  stderr : String
deriving DecidableEq, Repr

structure Stat where
  isRegular : Bool
  uid : Nat
deriving DecidableEq, Repr

/-- The three `SELECT`s of `_query_db`. -/
inductive Query where | allPorts | blockedPorts | shards
deriving DecidableEq, Repr

/-- What is printed as JSON. -/
inductive Output where
  | counters (pairs : List (Int × Int × Int))
  | status (states : List (String × String))
deriving DecidableEq, Repr

inductive Act : Type → Type 1
  /-- `shutil.which(name, path=SAFE_PATH)` -/
  | which (t : Tool) : Act (Option (ToolPath t))
  /-- `subprocess.run` -/
  | exec {t : Tool} (path : ToolPath t) (args : List Word) (stdin : Option Ruleset) : Act Proc
  /-- `os.path.exists(DB_PATH)` -/
  | dbExists : Act Bool
  | lstat : Act Stat
  | geteuid : Act Nat
  /-- `[int(r[0]) for r in conn.execute(..)]` -/
  | select (q : Query) : Act (List Int)
  /-- The child that has dropped to the owner of the database: its status and what it wrote. -/
  | child : Act (Int × List UInt8)
  | stderr (text : String) : Act Unit
  | print (out : Output) : Act Unit

abbrev P (α : Type) := Prog Act Exn α

def ofExcept {α : Type} : Except Exn α → P α
  | .ok a => .ret a
  | .error e => .raise e

/-! ## JSON -/

/-- What `json.loads` returns. Of a float only its truth and what `int` makes of it are used. -/
inductive Json where
  | null
  | bool (b : Bool)
  | int (i : Int)
  | float (truth : Bool) (toInt : Except Exn Int)
  | str (s : String)
  | arr (xs : List Json)
  | obj (kvs : List (String × Json))

/-- The functions of Python's library that read text: `json.loads`, and `int` of a string. -/
structure Python where
  loads : String → Except Exn Json
  intOf : String → Except Exn Int

namespace Json

/-- `not x` is `¬ x.truth` -/
def truth : Json → Bool
  | null => false
  | bool b => b
  | int i => i ≠ 0
  | float t _ => t
  | str s => s ≠ ""
  | arr xs => ¬ xs.isEmpty
  | obj kvs => ¬ kvs.isEmpty

/-- `x.get(key, default)`: only a dict has it. -/
def get (x : Json) (key : String) (default : Json) : Except Exn Json :=
  match x with
  | obj kvs => .ok (((kvs.find? (·.1 = key)).map (·.2)).getD default)
  | _ => .error .attribute

/-- `for item in x` -/
def items : Json → Except Exn (List Json)
  | arr xs => .ok xs
  | obj kvs => .ok (kvs.map fun kv => str kv.1)
  | str s => .ok (s.toList.map fun c => str (String.singleton c))
  | _ => .error .type

/-- `int(x)` -/
def toInt (py : Python) : Json → Except Exn Int
  | int i => .ok i
  | bool b => .ok (if b then 1 else 0)
  | float _ i => i
  | str s => py.intOf s
  | _ => .error .type

/-- `[int(p) for p in x]` -/
def toInts (py : Python) (x : Json) : Except Exn (List Int) := do
  (← x.items).mapM (toInt py)

end Json

/-- `low, high = x` -/
def unpack2 (x : Json) : Except Exn (Json × Json) := do
  match ← x.items with
  | [a, b] => pure (a, b)
  | _ => throw .value

/-- `a, b, c = x` -/
def unpack3 (x : Json) : Except Exn (Json × Json × Json) := do
  match ← x.items with
  | [a, b, c] => pure (a, b, c)
  | _ => throw .value

/-! ## Tools -/

/-- `str.strip()` -/
def strip (s : String) : String :=
  String.ofList (((s.toList.dropWhile Users.isSpace).reverse.dropWhile Users.isSpace).reverse)

/-- `s[:n]` -/
def cut (n : Nat) (s : String) : String := String.ofList (s.toList.take n)

/-- `os.path.basename` -/
def basename (s : String) : String := String.ofList ((s.toList.reverse.takeWhile (· ≠ '/')).reverse)

/-- `tool` -/
def tool (t : Tool) : P (ToolPath t) := do
  match ← .call (.which t) with
  | some path => if path.path = "" then .raise (.ctl (t.name ++ " not found")) else .ret path
  | none => .raise (.ctl (t.name ++ " not found"))

/-- `run(.., check=True)` turns a failing status into an error. -/
def checked {t : Tool} (path : ToolPath t) (proc : Proc) : P Proc :=
  if proc.returncode ≠ 0 then
    .raise (.ctl (basename path.path ++ ": " ++ cut 300 (strip proc.stderr))) else .ret proc

/-- `run([tool(t), *args], stdin, check)` -/
def run (t : Tool) (args : List Word) (stdin : Option Ruleset) (check : Bool) : P Proc := do
  let path ← tool t
  let proc ← .call (.exec path args stdin)
  if check then checked path proc else .ret proc

/-! ## Arguments -/

/-- A string less the newline that `$` passes over at its end. -/
def chomp (cs : List Char) : List Char := if cs.getLast? = some '\n' then cs.dropLast else cs

/-- `int` of digits -/
def decimal (cs : List Char) : Int := Nat.ofDigitChars 10 cs 0

/-- `parse_port`: `^[0-9]{5}$`, then the range -/
def parsePort (value : String) : Except Exn Int :=
  let digits := chomp value.toList
  if ¬ (digits.length = 5 ∧ digits.all Char.isDigit) then .error (.ctl "invalid port")
  else if ¬ (slotPortBase ≤ decimal digits ∧ decimal digits ≤ slotPortLast) then
    .error (.ctl "port out of range")
  else .ok (decimal digits)

/-- `^(0|[1-9][0-9]{0,2})$` -/
def isShardNumber (digits : List Char) : Bool :=
  digits = ['0'] || (digits.all Char.isDigit && digits.head?.any (· ≠ '0') && digits.length ≤ 3)

/-- `parse_shard` -/
def parseShard (value : String) : Except Exn Int :=
  let digits := chomp value.toList
  if ¬ isShardNumber digits ∨ decimal digits ≥ maxShards then .error (.ctl "invalid shard")
  else .ok (decimal digits)

/-- `parse_ports` -/
def parsePorts (values : List String) : Except Exn (List Int) :=
  if values = [] then .error (.ctl "no ports") else (values.mapM parsePort).map sortedSet

/-! ## What the tools print -/

/-- `^c([0-9]{5})_(up|down)$`: the port and whether it is `up` -/
def counterName (name : String) : Option (Int × Bool) :=
  match chomp name.toList with
  | 'c' :: cs =>
    if (cs.take 5).length = 5 ∧ (cs.take 5).all Char.isDigit then
      if cs.drop 5 = "_up".toList then some (decimal (cs.take 5), true)
      else if cs.drop 5 = "_down".toList then some (decimal (cs.take 5), false)
      else none
    else none
  | _ => none

/-- `pair = result.setdefault(port, [0, 0])` and the assignment to one half of it -/
def setCounter (port : Int) (up : Bool) (value : Int) (pairs : List (Int × Int × Int)) :
    List (Int × Int × Int) :=
  let pair := ((pairs.find? (·.1 = port)).map (·.2)).getD (0, 0)
  let pair := if up then (value, pair.2) else (pair.1, value)
  if pairs.any (·.1 = port) then pairs.map fun kv => if kv.1 = port then (port, pair) else kv
  else pairs ++ [(port, pair)]

/-- One round of the loop of `parse_counters`. -/
def parseCounter (py : Python) (pairs : List (Int × Int × Int)) (item : Json) :
    Except Exn (List (Int × Int × Int)) := do
  let counter ← item.get "counter" .null
  if ¬ counter.truth then pure pairs
  else
    match ← counter.get "name" (.str "") with
    | .str name =>
      match counterName name with
      | none => pure pairs
      | some (port, up) =>
        return setCounter port up (← (← counter.get "bytes" (.int 0)).toInt py) pairs
    | _ => throw .type

/-- `parse_counters` -/
def parseCounters (py : Python) (data : Json) : Except Exn (List (Int × Int × Int)) := do
  (← (← data.get "nftables" (.arr [])).items).foldlM (parseCounter py) []

/-- `range(low, high + 1)` -/
def interval (low high : Int) : List Int := (List.range (high + 1 - low).toNat).map fun i => low + i

/-- One element of a set: a number, or a range. -/
def parseElement (py : Python) (element : Json) : Except Exn (List Int) :=
  match element with
  | .int i => .ok [i]
  | .bool b => .ok [if b then 1 else 0]
  | .obj kvs =>
    match kvs.find? (·.1 = "range") with
    | some kv => do
      let (low, high) ← unpack2 kv.2
      return interval (← low.toInt py) (← high.toInt py)
    | none => .ok []
  | _ => .ok []

/-- `found.get("name") != "blocked"` -/
def isBlockedSet (name : Json) : Bool :=
  match name with
  | .str s => s = "blocked"
  | _ => false

/-- One round of the loop of `parse_set_elements`. -/
def parseItem (py : Python) (item : Json) : Except Exn (List Int) := do
  let found ← item.get "set" .null
  if ¬ found.truth then pure []
  else if ¬ isBlockedSet (← found.get "name" .null) then pure []
  else
    let elem ← found.get "elem" (.arr [])
    if ¬ elem.truth then pure []
    else return (← (← elem.items).mapM (parseElement py)).flatten

/-- `parse_set_elements`; the set as a list -/
def parseSetElements (py : Python) (data : Json) : Except Exn (List Int) := do
  return (← (← (← data.get "nftables" (.arr [])).items).mapM (parseItem py)).flatten

/-! ## Actions on the table -/

def killChunk : Nat := 64

/-- The chunks of a list. -/
def chunks (n : Nat) (xs : List Int) : List (List Int) :=
  (List.range ((xs.length + n - 1) / n)).map fun i => (xs.drop (i * n)).take n

/-- `kill_filters`: the ports of each filter -/
def killFilters (ports : List Int) : List (List Int) := chunks killChunk (Table.orderBy id ports)

/-- `current_blocked` -/
def currentBlocked (py : Python) : P (Option (List Int)) := do
  let proc ← run .nft [.lit "-j", .lit "list", .lit "set", .lit "inet", .lit "wpp", .lit "blocked"]
      none false
  if proc.returncode ≠ 0 then pure none
  else return some (← ofExcept ((py.loads proc.stdout).bind (parseSetElements py)))

/-- One round of the loop of `kill`. -/
def killOne (ports : List Int) : P Unit := do
  let proc ← run .ss [.lit "-K", .lit "-tn", .lit "state", .lit "established", .filter ports] none
      false
  Prog.runIf (proc.returncode ≠ 0)
    (.call (.stderr ("wppctl: ss -K failed: " ++ cut 200 (strip proc.stderr) ++ "\n")))

/-- `kill` -/
def kill (ports : List Int) : P Unit := (killFilters ports).forM killOne

/-- `cmd_block` -/
def cmdBlock (args : List String) : P Unit := do
  let ports ← ofExcept (parsePorts args)
  let _ ← run .nft [.lit "add", .lit "element", .lit "inet", .lit "wpp", .lit "blocked",
      .elements ports] none true
  kill ports

/-- `cmd_unblock` -/
def cmdUnblock (py : Python) (args : List String) : P Unit := do
  let ports ← ofExcept (parsePorts args)
  match ← currentBlocked py with
  | none => .raise (.ctl "table inet wpp is missing; run sync")
  | some present =>
    let remove := ports.filter (· ∈ present)
    Prog.runIf (remove ≠ []) do
      let _ ← run .nft [.lit "delete", .lit "element", .lit "inet", .lit "wpp", .lit "blocked",
          .elements remove]
        none true
      pure ()

/-! ## The database -/

/-- `bytes.decode("ascii")` -/
def decodeAscii (bytes : List UInt8) : Except Exn String :=
  if bytes.all (· < 128) then .ok (String.ofList (bytes.map fun b => Char.ofNat b.toNat))
    else .error .value

/-- `_query_db`: three statements, each with its own view of the database -/
def queryDb : P (List Int × List Int × List Int) := do
  let ports ← .call (.select .allPorts)
  let blocked ← .call (.select .blockedPorts)
  let shards ← .call (.select .shards)
  pure (ports, blocked, shards)

/-- What the parent makes of the child's bytes. -/
def readPayload (py : Python) (payload : List UInt8) :
    Except Exn (List Int × List Int × List Int) := do
  let (ports, blocked, shards) ← unpack3 (← py.loads (← decodeAscii payload))
  return (← ports.toInts py, ← blocked.toInts py, ← shards.toInts py)

/-- The checks at the end of `read_db`. -/
def checkRanges (x : List Int × List Int × List Int) :
    Except Exn (List Int × List Int × List Int) :=
  if ¬ ∀ port ∈ x.1, slotPortBase ≤ port ∧ port ≤ slotPortLast then
    .error (.ctl "database contains an invalid port")
  else if ¬ ∀ shard ∈ x.2.2, 0 ≤ shard ∧ shard < maxShards then
    .error (.ctl "database contains an invalid shard")
  else .ok x

/-- `read_db` -/
def readDb (py : Python) : P (List Int × List Int × List Int) := do
  let owner ← .call .lstat
  if ¬ owner.isRegular then .raise (.ctl "database is not a regular file")
  else do
    let euid ← .call .geteuid
    if euid = 0 ∧ owner.uid = 0 then .raise (.ctl "database must not be owned by root")
    else if euid ≠ 0 then do
      let x ← queryDb
      ofExcept (checkRanges x)
    else do
      let (status, payload) ← .call .child
      if status ≠ 0 then .raise (.ctl "cannot read the database")
      else do
        let x ← ofExcept (readPayload py payload)
        ofExcept (checkRanges x)

/-! ## Commands -/

/-- The first step of `cmd_sync`: ports and blocked ports, or nothing where there is no database. -/
def syncInput (py : Python) : P (List Int × List Int) := do
  if ← .call .dbExists then do
    let (ports, blocked, _) ← readDb py
    pure (ports, blocked)
  else pure ([], [])

/-- `kill(set(blocked) - before)`, if there was a table -/
def killNew (blocked : List Int) : Option (List Int) → P Unit
  | some before => kill ((blocked.filter (· ∉ before)).dedup)
  | none => pure ()

/-- `cmd_sync` -/
def cmdSync (py : Python) (args : List String) : P Unit := do
  if args ≠ [] then .raise (.ctl "sync takes no arguments")
  else do
    let (ports, blocked) ← syncInput py
    let before ← currentBlocked py
    let _ ← run .nft [.lit "-f", .lit "-"] (some (buildRuleset ports blocked)) true
    killNew blocked before

/-- `cmd_counters` -/
def cmdCounters (py : Python) (args : List String) : P Unit := do
  if args ≠ [] then .raise (.ctl "counters takes no arguments")
  else do
    let proc ← run .nft [.lit "-j", .lit "list", .lit "counters", .lit "table", .lit "inet",
        .lit "wpp"] none true
    let pairs ← ofExcept ((py.loads proc.stdout).bind (parseCounters py))
    .call (.print (.counters (Table.orderBy (·.1) pairs)))

/-- `unit_for` -/
def unitFor (kind : String) (rest : List String) : Except Exn Word :=
  if kind = "relay" ∧ rest = [] then .ok (.lit "wpp-relay.service")
  else if kind = "caddy" ∧ rest = [] then .ok (.lit "wpp-caddy.service")
  else
    match rest with
    | [n] => if kind = "shard" then (parseShard n).map .shardUnit else .error (.ctl "invalid unit")
    | _ => .error (.ctl "invalid unit")

/-- `unit.startswith("wpp-mtproxy@")` -/
def isShardUnit (unit : Word) : Bool := "wpp-mtproxy@".toList.isPrefixOf unit.text.toList

/-- `cmd_systemctl` -/
def cmdSystemctl (verb : String) (args : List String) : P Unit :=
  match args with
  | [] => .raise (.ctl "missing unit")
  | kind :: rest => do
    let unit ← ofExcept (unitFor kind rest)
    if verb ∈ ["start", "stop", "enable", "disable"] ∧ ¬ isShardUnit unit then
      .raise (.ctl ("only shards can be " ++ verb ++ "d"))
    else do
      let _ ← run .systemctl [.lit verb, unit] none true
      pure ()

def fixedUnits : List String :=
  ["wpp-caddy.service", "wpp-relay.service", "wpp-panel.service", "wpp-bot.service",
    "wpp-worker.timer",
   "wpp-refresh.timer", "wpp-firewall.service"]

/-- `proc.stdout.strip() or "unknown"` -/
def stateOf (proc : Proc) : String :=
  if strip proc.stdout = "" then "unknown" else strip proc.stdout

/-- The loop of `cmd_status`. -/
def unitStates : List Word → P (List (String × String))
  | [] => pure []
  | unit :: units => do
    let proc ← run .systemctl [.lit "is-active", unit] none false
    let states ← unitStates units
    pure ((unit.text, stateOf proc) :: states)

/-- `units` of `cmd_status` -/
def statusUnits (py : Python) : P (List Word) := do
  if ← .call .dbExists then do
    let (_, _, shards) ← readDb py
    pure (fixedUnits.map .lit ++ shards.map .shardUnit)
  else pure (fixedUnits.map .lit)

/-- `result[unit] = ..`: a repeated unit keeps its place and takes the later state; then sorted by
name. -/
def asDict (states : List (String × String)) : List (String × String) :=
  (states.pwFilter fun a b => a.1 ≠ b.1).mergeSort fun a b => a.1 ≤ b.1

/-- `cmd_status` -/
def cmdStatus (py : Python) (args : List String) : P Unit := do
  if args ≠ [] then .raise (.ctl "status takes no arguments")
  else do
    let units ← statusUnits py
    let states ← unitStates units
    .call (.print (.status (asDict states)))

/-- `main` -/
def main (py : Python) (argv : List String) : P Unit :=
  match argv with
  | [] => .raise (.ctl "usage: wppctl COMMAND [ARGS]")
  | command :: args =>
    if command = "block" then cmdBlock args
    else if command = "unblock" then cmdUnblock py args
    else if command = "sync" then cmdSync py args
    else if command = "counters" then cmdCounters py args
    else if command ∈ ["restart", "start", "stop", "enable", "disable"] then
      cmdSystemctl command args
    else if command = "install-shard-unit" ∧ args.length = 1 then
      cmdSystemctl "enable" ("shard" :: args)
    else if command = "daemon-reload" ∧ args = [] then do
      let _ ← run .systemctl [.lit "daemon-reload"] none true
      pure ()
    else if command = "status" then cmdStatus py args
    else .raise (.ctl "unknown command")

end Ctl
end WebProxyPanel
