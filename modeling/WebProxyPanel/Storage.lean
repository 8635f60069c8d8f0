import WebProxyPanel.Lib.Files
import WebProxyPanel.Lib.Interleave
import WebProxyPanel.Ctl
/-!
# How files are written (`system.py:26-47`, `:121-137`)

`System` takes the writing of a file for one step. Here are the steps that `atomic_write` makes of
it, on a disk that can lose power, with any number of processes that write, read and remove files,
each of which can be killed anywhere. An exception can come out of any call, before or after its
effect.

| here | there |
| --- | --- |
| `dirname`, `joinPath` | `os.path.dirname`, `os.path.join` |
| `Act`, `perform` | the calls of `os`, `tempfile` and of file objects |
| `atomicWrite` | `atomic_write` |
| `writeFile`, `readFile`, `removeFile` | `System.write_file`, `System.read_file`, `System.remove_file` |
-/

namespace WebProxyPanel
namespace Storage
open Effects Files

/-! ## Paths -/

/-- `os.path.dirname` -/
def dirname (path : String) : String :=
  let head := path.toList.reverse.dropWhile (· ≠ '/')
  if head.all (· = '/') then String.ofList head.reverse else
    String.ofList (head.dropWhile (· = '/')).reverse

/-- `os.path.dirname(path) or "."` -/
def directoryOf (path : String) : String := if dirname path = "" then "." else dirname path

/-- `os.path.join`, for a second part that does not begin with a slash -/
def joinPath (a b : String) : String :=
  if a = "" ∨ a.toList.getLast? = some '/' then a ++ b else a ++ "/" ++ b

def tempPrefix : String := ".tmp-"

/-- The characters of `tempfile._RandomNameSequence`. -/
def isNameChar (c : Char) : Bool := c.isLower || c.isDigit || c = '_'

/-- A path as `mkstemp` makes them. -/
@[irreducible] def isTemp (path : String) : Bool :=
  tempPrefix.toList.isPrefixOf (Ctl.basename path).toList

/-- The paths of the program's own files. -/
abbrev RealPath := { path : String // isTemp path = false }

/-! ## State -/

/-- What happened to the files. -/
inductive Event where
  | put (path : String) (file : Option File)
  | saw (path : String) (file : Option File)
  | powerLoss (after : String → Option File)

structure Shared where
  disk : Disk String
  /-- History: the names that `mkstemp` has handed out, what happened to the files, the latest
  first, and the temporary files that nobody is going to remove. -/
  drawn : List String
  log : List Event
  stray : List String

structure Own where
  /-- What the open handle has not passed on yet. -/
  buffer : List UInt8
  /-- History: its temporary file as long as it is there, the file it has opened, what it has read,
  and its part of the log. -/
  temp : Option (String × Nat)
  reading : Option (String × Nat)
  got : Option (String × List UInt8)
  events : List Event

def Own.idle : Own := ⟨[], none, none, none, []⟩

abbrev State := Shared × Own

/-! ## Calls -/

inductive Exn where
  /-- `FileNotFoundError` -/
  | notFound
  | other
deriving DecidableEq, Repr

inductive Act : Type → Type 1
  /-- `tempfile.mkstemp(prefix=".tmp-", dir=directory)` -/
  | mkstemp (directory : String) : Act (Nat × String)
  | fchmod (fd : Nat) (mode : Nat) : Act Unit
  | fdopen (fd : Nat) : Act Unit
  /-- `handle.write` -/
  | write (fd : Nat) (data : List UInt8) : Act Unit
  | flush (fd : Nat) : Act Unit
  | fsync (fd : Nat) : Act Unit
  | close (fd : Nat) : Act Unit
  /-- `os.replace` -/
  | replace (src dst : String) : Act Unit
  /-- `os.unlink` -/
  | unlink (path : String) : Act Unit
  /-- `os.open`, `os.fsync` and `os.close` of a directory -/
  | openDir (directory : String) : Act Unit
  | fsyncDir (directory : String) : Act Unit
  | closeDir (directory : String) : Act Unit
  /-- `open(path, "rb")` -/
  | openRead (path : String) : Act Nat
  /-- `handle.read()` -/
  | readAll (fd : Nat) : Act (List UInt8)
  | closeRead (fd : Nat) : Act Unit

inductive Choice where
  | ok
  /-- The call raises; `done`: it had its effect. -/
  | fail (done : Bool)
  /-- `mkstemp` draws these characters; `lost`: it raises after it has made the file. -/
  | name (random : String) (lost : Bool)
  /-- The system takes so many bytes of the buffer; `raises`: and then the call raises. -/
  | took (n : Nat) (raises : Bool)

/-- A call that changes the disk alone. -/
def plain (c : Choice) (f : Disk String → Disk String) (s : State) :
    Option (Except Exn Unit × State) :=
  match c with
  | .ok => some (.ok (), ({ s.1 with disk := f s.1.disk }, s.2))
  | .fail done =>
    some (.error .other, ({ s.1 with disk := if done then f s.1.disk else s.1.disk }, s.2))
  | _ => none

/-- The first `n` bytes that wait go to the file. -/
def pass (fd n : Nat) (waiting : List UInt8) (s : State) : State :=
  ({ s.1 with disk := s.1.disk.append fd (waiting.take n) }, { s.2 with buffer := waiting.drop n })

/-- Bytes that wait, or some of them, go to the file; `all`: without an exception all of them do. -/
def passOn (c : Choice) (fd : Nat) (waiting : List UInt8) (all : Bool) (s : State) :
    Option (Except Exn Unit × State) :=
  match c with
  | .took n raises =>
    if all && !raises && decide (n < waiting.length) then none
    else some (if raises then .error .other else .ok (), pass fd n waiting s)
  | _ => none

/-- The temporary file `path`, if it is the process's, is not its own any more. -/
def Own.forget (path : String) (l : Own) : Own :=
  { l with temp := if l.temp.map Prod.fst = some path then none else l.temp }

/-- What happens to a temporary file is not logged. -/
def note (path : String) (e : Event) (s : State) : State :=
  if isTemp path = true then s else
    ({ s.1 with log := e :: s.1.log }, { s.2 with events := e :: s.2.events })

/-- `mkstemp` has made a file. -/
def made (path : String) (s : State) : State :=
  ({ s.1 with disk := s.1.disk.create path 0o600, drawn := path :: s.1.drawn },
    { s.2 with temp := some (path, s.1.disk.next) })

/-- The file stays behind. -/
def leave (path : String) (s : State) : State :=
  ({ s.1 with stray := path :: s.1.stray }, s.2.forget path)

/-- `os.replace` of an existing file -/
def replaced (src dst : String) (s : State) : State :=
  note dst (.put dst (s.1.disk.read src)) ({ s.1 with disk := s.1.disk.rename src dst },
    s.2.forget src)

/-- `os.unlink` of an existing file -/
def unlinked (path : String) (s : State) : State :=
  note path (.put path none) ({ s.1 with disk := s.1.disk.unlink path }, s.2.forget path)

/-- The process finds the file, or that there is none. -/
def saw (path : String) (s : State) : State := note path (.saw path (s.1.disk.read path)) s

/-- `open(path, "rb")` of a file -/
def opened (path : String) (i : Nat) (s : State) : State :=
  ((saw path s).1, { (saw path s).2 with reading := some (path, i) })

def respond (c : Choice) {β : Type} (a : Act β) (s : State) : Option (Except Exn β × State) :=
  let (w, l) := s
  match a with
  | .mkstemp directory => match c with
    | .name random lost =>
      let path := joinPath directory (tempPrefix ++ random)
      -- A name that is taken is passed over.
      if ¬ (random.length = 8 ∧ random.toList.all isNameChar) ∨ w.disk.entries path ≠ none then none
      else if lost then some (.error .other, leave path (made path s))
      else some (.ok (w.disk.next, path), made path s)
    | .fail false => some (.error .other, s)
    | _ => none
  | .fchmod fd mode => plain c (Disk.chmod fd mode) s
  | .fdopen _ => match c with
    | .ok => some (.ok (), (w, { l with buffer := [] }))
    | .fail _ => some (.error .other, s)
    | _ => none
  | .write fd data => passOn c fd (l.buffer ++ data) false s
  | .flush fd => passOn c fd l.buffer true s
  | .fsync fd => plain c (Disk.sync fd) s
  | .close fd => passOn c fd l.buffer true s
  | .replace src dst => match w.disk.entries src, c with
    | none, .ok => some (.error .notFound, s)
    | some _, .ok => some (.ok (), replaced src dst s)
    | some _, .fail true => some (.error .other, replaced src dst s)
    | _, .fail false => some (.error .other, s)
    | _, _ => none
  | .unlink path => match w.disk.entries path, c with
    | none, .ok => some (.error .notFound, saw path s)
    | some _, .ok => some (.ok (), unlinked path s)
    | some _, .fail true => some (.error .other, unlinked path s)
    | some _, .fail false => some (.error .other, leave path s)
    | none, .fail false => some (.error .other, s)
    | _, _ => none
  | .openDir _ => plain c id s
  | .fsyncDir directory => plain c (Disk.syncDir fun n => directoryOf n = directory) s
  | .closeDir _ => plain c id s
  | .openRead path => match w.disk.entries path, c with
    | none, .ok => some (.error .notFound, saw path s)
    | some i, .ok => some (.ok i, opened path i s)
    | _, .fail _ => some (.error .other, s)
    | _, _ => none
  | .readAll fd => match c with
    | .ok =>
      let data := (w.disk.inodes fd).file.data
      some (.ok data, (w, { l with got := l.reading.map fun r => (r.1, data) }))
    | .fail _ => some (.error .other, s)
    | _ => none
  | .closeRead _ => match c with
    | .ok => some (.ok (), (w, { l with reading := none }))
    | .fail _ => some (.error .other, (w, { l with reading := none }))
    | _ => none

def sem : Sem Act Exn Choice State where
  perform := respond

/-- The names that `mkstemp` draws do not repeat. -/
def fresh (c : Choice) {β : Type} (a : Act β) (s : State) : Bool :=
  match a, c with
  | .mkstemp directory, .name random _ =>
    decide (joinPath directory (tempPrefix ++ random) ∉ s.1.drawn)
  | _, _ => true

abbrev Fresh : Allow Act Choice State := fun c {_} a s => fresh c a s = true

/-! ## Programs -/

abbrev P (α : Type) := Prog Act Exn α

/-- `except FileNotFoundError: pass` -/
def ignoreMissing (p : P Unit) : P Unit :=
  p.tryCatch fun e => if e = .notFound then .ret () else .raise e

/-- The body of the `with`: the handle is closed on both ways out. -/
def fill (fd : Nat) (data : List UInt8) : P Unit :=
  Prog.tryFinally (do
    .call (.write fd data)
    .call (.flush fd)
    .call (.fsync fd)) (.call (.close fd))

/-- The body of the `try`. -/
def putInPlace (fd : Nat) (temporary path : String) (data : List UInt8) (mode : Nat) : P Unit := do
  .call (.fchmod fd mode)
  .call (.fdopen fd)
  fill fd data
  .call (.replace temporary path)

/-- The handler: `BaseException` is everything. -/
def discard (temporary : String) (e : Exn) : P Unit := do
  ignoreMissing (.call (.unlink temporary))
  .raise e

/-- `os.fsync(dir_fd)` -/
def settle (directory : String) : P Unit := do
  .call (.openDir directory)
  Prog.tryFinally (.call (.fsyncDir directory)) (.call (.closeDir directory))

/-- `atomic_write` -/
def atomicWrite (path : String) (data : List UInt8) (mode : Nat) : P Unit := do
  let directory := directoryOf path
  let (fd, temporary) ← .call (.mkstemp directory)
  (putInPlace fd temporary path data mode).tryCatch (discard temporary)
  settle directory

/-- `System.write_file` -/
def writeFile (path : String) (data : List UInt8) (mode : Nat) : P Unit :=
  atomicWrite path data mode

/-- `System.read_file` -/
def readFile (path : String) : P (Option (List UInt8)) :=
  Prog.tryCatch (do
    let handle ← .call (.openRead path)
    Prog.tryFinally (.bind (.call (.readAll handle)) fun data => .ret (some data))
      (.call (.closeRead handle)))
    fun e => if e = .notFound then .ret none else .raise e

/-- `System.remove_file` -/
def removeFile (path : String) : P Unit := ignoreMissing (.call (.unlink path))

inductive FileOp where
  | writeFile (path : RealPath) (data : List UInt8) (mode : Nat)
  | readFile (path : RealPath)
  | removeFile (path : RealPath)

def FileOp.program : FileOp → P Unit
  | .writeFile path data mode => Storage.writeFile path.1 data mode
  | .readFile path => do
    let _ ← Storage.readFile path.1
    pure ()
  | .removeFile path => Storage.removeFile path.1

/-! ## Processes -/

/-- A process is killed: its temporary file stays behind. -/
def kill (s : State) : State :=
  ({ s.1 with stray := (s.2.temp.map Prod.fst).toList ++ s.1.stray },
    { Own.idle with events := s.2.events })

/-- Processes that start only operations that satisfy `asked`. -/
def system (asked : FileOp → Prop) : System { op // asked op } Act Exn Choice Shared Own where
  sem := sem
  program op := op.1.program
  stop := kill

abbrev Procs (asked : FileOp → Prop) := Configuration Nat { op // asked op } Act Exn Shared Own

/-- The machine has just started. -/
def booted (asked : FileOp → Prop) (w : Shared) : Procs asked :=
  ⟨w, fun _ => Own.idle, fun _ => none⟩

/-- A disk on which everything is synced, and whose temporary files nobody owns. -/
structure Settled (w : Shared) : Prop where
  past : ∀ n, w.disk.past n = []
  synced : ∀ i, (w.disk.inodes i).synced = true
  bound : ∀ n i, w.disk.entries n = some i → i < w.disk.next
  stray : ∀ n, isTemp n = true → w.disk.entries n ≠ none → n ∈ w.stray
  log : w.log = []

/-- The power goes and comes back. -/
def afterLoss (d : Disk String) (w : Shared) : Shared :=
  { w with disk := d, log := .powerLoss (fun n => d.read n) :: w.log, stray := w.drawn ++ w.stray }

/-- One step of some process, a kill, or a loss of power. -/
inductive Moves (asked : FileOp → Prop) : Procs asked → Procs asked → Prop
  | step {c c' : Procs asked} {i : Nat} : (system asked).Step Fresh True i c c' → Moves asked c c'
  | powerLoss {c : Procs asked} {d : Disk String} : c.shared.disk.PowerLoss d →
      Moves asked c (booted asked (afterLoss d c.shared))

/-- Any number of moves. -/
def Run (asked : FileOp → Prop) : Procs asked → Procs asked → Prop :=
  Relation.ReflTransGen (Moves asked)

/-- What some run leads to that began with `w₀`. -/
def Reached (asked : FileOp → Prop) (w₀ : Shared) (c : Procs asked) : Prop :=
  Settled w₀ ∧ Run asked (booted asked w₀) c

/-! ## Names of temporary files -/

theorem basename_append {a b : String} (h : '/' ∉ b.toList)
    (ha : a = "" ∨ a.toList.getLast? = some '/') : Ctl.basename (a ++ b) = b := by
  have hb : ∀ c ∈ b.toList.reverse, decide (c ≠ '/') = true := by
    rintro c hc
    rw [decide_eq_true_eq]
    rintro rfl
    exact h (List.mem_reverse.1 hc)
  unfold Ctl.basename
  rw [String.toList_append, List.reverse_append, List.takeWhile_append_of_pos hb]
  suffices hend : a.toList.reverse.takeWhile (fun c => decide (c ≠ '/')) = [] by
    rw [hend, List.append_nil, List.reverse_reverse, String.ofList_toList]
  rcases ha with rfl | ha
  · rfl
  · obtain ⟨xs, hxs⟩ := List.getLast?_eq_some_iff.1 ha
    rw [hxs, List.reverse_append]
    rfl

/-- A name that `mkstemp` makes is that of a temporary file. -/
theorem isTemp_joinPath (directory : String) {random : String}
    (h : random.toList.all isNameChar = true) :
    isTemp (joinPath directory (tempPrefix ++ random)) = true := by
  have hslash : '/' ∉ (tempPrefix ++ random).toList := by
    rw [String.toList_append, List.mem_append]
    rintro (hc | hc)
    · revert hc
      decide
    · have := List.all_eq_true.1 h _ hc
      revert this
      decide
  have hbase : Ctl.basename (joinPath directory (tempPrefix ++ random)) = tempPrefix ++ random := by
    unfold joinPath
    split
    · rename_i hd
      exact basename_append hslash hd
    · refine basename_append hslash (Or.inr ?_)
      rw [String.toList_append, List.getLast?_append]
      rfl
  unfold isTemp
  rw [hbase, String.toList_append, List.isPrefixOf_iff_prefix]
  exact List.prefix_append _ _

end Storage
end WebProxyPanel
