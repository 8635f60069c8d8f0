import WebProxyPanel.Lib.Among
import WebProxyPanel.Loads
/-!
# The machine under `wppctl`

`System` (system.py:51-116) calls `wppctl` through sudo; `Action` has these calls as single steps on
the firewall, the units and the database. `wppctl` itself is a program that runs `nft`, `ss` and
`systemctl`, reads the database with three statements, and may be stopped anywhere by the timeout of
its caller. Here are the two levels with the same view of the machine:

| here | there |
| --- | --- |
| `Tools.Lawful` | nft and systemctl, as far as their documentation says what they do |
| `does` | an action of `wppctl` on the machine; the child runs `_query_db` (ctl.py:206-217) by itself |
| `Streams.ctl` | `System._ctl` (system.py:62-71), with `__main__` of wppctl (ctl.py:346-358) |
| `asks` | an action of `System` on the view |

`nft` is atomic: it has all of its effect or none, also when it is killed.
-/

namespace WebProxyPanel
namespace Ctl
open Effects

/-! ## Tools -/

/-- The ports in a `{ .. }` of a command line. -/
def readElements (text : String) : Option (List Int) :=
  match lex text.toList with
  | "\x7b" :: words =>
    if words.getLast? = some "\x7d" then (words.dropLast.splitOn ",").mapM readElement else none
  | _ => none

/-- The blocked set of a script that puts a new table in the place of the old one. -/
def readTable (script : String) : Option (List Int) :=
  if "table inet wpp\ndelete table inet wpp\n".toList.isPrefixOf script.toList then
    match declaredSets (readScript script) with
    | [("blocked", xs)] => some xs
    | _ => none
  else none

/-- What the tools may return, given their arguments, their input and what they find, and what they
leave. -/
structure Tools where
  nft : List String → Option String → Option (Finset Int) → Proc → Option (Finset Int) → Prop
  systemctl : List String → Finset Int → Proc → Finset Int → Prop

/-- Set `blocked` of table `inet wpp`, which may be missing, and the enabled shards. -/
structure Tools.Lawful (tools : Tools) : Prop where
  fails : ∀ {args stdin f proc f'}, tools.nft args stdin f proc f' → proc.returncode ≠ 0 → f' = f
  add : ∀ {text f proc f' ps}, tools.nft ["add", "element", "inet", "wpp", "blocked", text] none f
    proc f' → proc.returncode = 0 →
    readElements text = some ps → ∃ g, f = some g ∧ f' = some (g ∪ ps.toFinset)
  delete : ∀ {text f proc f' ps}, tools.nft ["delete", "element", "inet", "wpp", "blocked", text]
    none f proc f' → proc.returncode = 0 →
    readElements text = some ps → ∃ g, f = some g ∧ f' = some (g \ ps.toFinset)
  list : ∀ {f proc f'}, tools.nft ["-j", "list", "set", "inet", "wpp", "blocked"] none f proc f' →
    proc.returncode = 0 →
    f' = f ∧ ∃ g v, f = some g ∧ JsonText.read proc.stdout.toList = some v ∧ SetListing v g
  load : ∀ {script f proc f' xs}, tools.nft ["-f", "-"] (some script) f proc f' →
    proc.returncode = 0 → readTable script = some xs → f' = some xs.toFinset
  enable : ∀ {k u proc u'}, tools.systemctl ["enable", (Word.shardUnit k).text] u proc u' →
    u' = insert k u ∨ u' = u ∧ proc.returncode ≠ 0
  disable : ∀ {k u proc u'}, tools.systemctl ["disable", (Word.shardUnit k).text] u proc u' →
    u' = u.erase k ∨ u' = u ∧ proc.returncode ≠ 0
  others : ∀ {verb unit u proc u'}, verb = "restart" ∨ verb = "stop" →
    tools.systemctl [verb, unit] u proc u' → u' = u

/-! ## The machine -/

structure Machine where
  db : DB
  table : Option (Finset Int)
  units : Finset Int

/-- What `wppctl` has written. -/
structure Streams where
  stdout : String
  stderr : String

abbrev Station := Machine × Streams

/-- The others move, and leave the streams of a process alone. -/
def beside (R : Machine → Machine → Prop) (s s' : Station) : Prop := R s.1 s'.1 ∧ s'.2 = s.2

def Query.rows : Query → DB → List Int
  | .allPorts => WebProxyPanel.allPorts
  | .blockedPorts => WebProxyPanel.blockedPorts
  | .shards => WebProxyPanel.allShards

/-- A tool that runs to its end. `ss` cuts connections. -/
def Tools.Ran (tools : Tools) (t : Tool) (args : List String) (stdin : Option String) (m : Machine)
    (proc : Proc) (m' : Machine) : Prop :=
  match t with
  | .nft => ∃ f, tools.nft args stdin m.table proc f ∧ m' = { m with table := f }
  | .ss => m' = m
  | .systemctl => ∃ u, tools.systemctl args m.units proc u ∧ m' = { m with units := u }

/-- What is printed, as a line of JSON. -/
def Output.text : Output → String
  | .counters pairs =>
    String.ofList (dumps (.obj
      (pairs.map fun kv => (toString kv.1, .arr [.int kv.2.1, .int kv.2.2])))) ++ "\n"
  | .status states => String.ofList (dumps (.obj (states.map fun kv => (kv.1, .str kv.2)))) ++ "\n"

/-- What an action of one process does. A tool that raises has not been started, or it was killed at
the timeout. -/
def alone (tools : Tools) : Answers Act Exn Station := fun {_} s a r s' =>
  match a with
  | .exec (t := t) _ args stdin => s'.2 = s.2 ∧
      ((∃ proc, r = .ok proc ∧ tools.Ran t (args.map Word.text) (stdin.map Ruleset.text)
        s.1 proc s'.1) ∨
        ∃ e, r = .error e ∧ (s'.1 = s.1 ∨ ∃ proc,
          tools.Ran t (args.map Word.text) (stdin.map Ruleset.text) s.1 proc s'.1))
  | .dbExists => r = .ok true ∧ s' = s
  | .select q => s' = s ∧ ∀ xs, r = .ok xs → xs = q.rows s.1.db
  | .stderr text => r = .ok () ∧ s' = (s.1, { s.2 with stderr := s.2.stderr ++ text })
  | .print out => r = .ok () ∧ s' = (s.1, { s.2 with stdout := s.2.stdout ++ out.text })
  | .child => False
  | .which _ | .lstat | .geteuid => s' = s

/-- What an action does; the child is a process of its own, and its status is 0 once it has sent the
lists. -/
def does (tools : Tools) (R : Machine → Machine → Prop) : Answers Act Exn Station :=
  fun {_} s a r s' =>
  match a with
  | .child => Relation.ReflTransGen (beside R) s s' ∧ ∀ payload, r = .ok (0, payload) →
      ∃ x, Among (alone tools) (beside R) queryDb s (some (.ok x)) s' ∧ payload = dumpPayload x
  | a => alone tools s a r s'

/-! ## `System._ctl` -/

/-- The line on stderr that an exception ends with; what is printed of other exceptions than
`CtlError` is a parameter. -/
def complaint (others : Exn → String) : Exn → String
  | .ctl message => "wppctl: " ++ message ++ "\n"
  | e => others e

/-- `System._ctl`: what is printed, or an error. A process that did not come to its end raises for a
reason of its own. -/
def Streams.ctl (io : Streams) (command : String) (others : Exn → String) (reason : String) :
    Option (Except Exn Unit) → Except Err String
  | some (.ok _) => .ok io.stdout
  | some (.error e) =>
    .error (.system ("wppctl " ++ command ++ ": " ++
      cut 300 (strip (io.stderr ++ complaint others e))))
  | none => .error (.system ("wppctl " ++ command ++ ": " ++ reason))

/-! ## The view of `System` -/

structure View where
  db : DB
  blocked : Finset Int
  units : Finset Int

/-- Where there is no table, nothing is blocked. -/
def Machine.view (m : Machine) : View := ⟨m.db, m.table.getD ∅, m.units⟩

def View.of (w : World) : View := ⟨w.db, w.blocked, w.units⟩

/-- What an action of `System` answers and does, as far as the view goes. -/
def asks : Answers Action Err View := fun {_} v a r v' =>
  ∃ c w l w' l', respond c a (w, l) = some (r, (w', l')) ∧ View.of w = v ∧ View.of w' = v'

end Ctl
end WebProxyPanel
