import WebProxyPanel.Durable
import WebProxyPanel.Installed
import WebProxyPanel.Global
/-!
# `System` may take a file operation for one step

`respond` writes, reads and removes a file in one step, which may fail with or without its effect.
The programs of `Storage` do no more: seen through the contents of the program's own paths, a
complete run of one of them is one answer of `respond`.
-/

namespace WebProxyPanel
namespace Storage
open Effects Files

variable {asked : FileOp → Prop} {w₀ : Shared}

/-! ## A process alone -/

theorem events_of_plain {c : Choice} {f : Disk String → Disk String} {s s' : State}
    {r : Except Exn Unit} (h : plain c f s = some (r, s')) :
    s'.1.log = s.1.log ∧ s'.2.events = s.2.events := by
  unfold plain at h
  split at h <;> cases h <;> exact ⟨rfl, rfl⟩

theorem events_of_passOn {c : Choice} {fd : Nat} {waiting : List UInt8} {all : Bool} {s s' : State}
    {r : Except Exn Unit} (h : passOn c fd waiting all s = some (r, s')) :
    s'.1.log = s.1.log ∧ s'.2.events = s.2.events := by
  unfold passOn at h
  split at h
  · split at h
    · cases h
    · cases h
      exact ⟨rfl, rfl⟩
  · cases h

/-- The same has happened to the log and to the process's part of it. -/
def Both (s s' : State) : Prop := ∃ es, s'.1.log = es ++ s.1.log ∧ s'.2.events = es ++ s.2.events

theorem Both.none {s s' : State} (h : s'.1.log = s.1.log ∧ s'.2.events = s.2.events) : Both s s' :=
  ⟨[], h.1, h.2⟩

theorem both_note (path : String) (e : Event) (s : State) : Both s (note path e s) := by
  unfold note
  split
  · exact .none ⟨rfl, rfl⟩
  · exact ⟨[e], rfl, rfl⟩

theorem Both.trans {s₁ s₂ s₃ : State} (h : Both s₁ s₂) (h' : Both s₂ s₃) : Both s₁ s₃ := by
  obtain ⟨es, hl, he⟩ := h
  obtain ⟨es', hl', he'⟩ := h'
  exact ⟨es' ++ es, by rw [hl', hl, List.append_assoc], by rw [he', he, List.append_assoc]⟩

theorem both_of_next {s s' : State} {β : Type} {a : Act β} {r : Except Exn β}
    (hn : sem.Next Fresh s a r s') : Both s s' := by
  have hnext := hn
  obtain ⟨c, -, hp⟩ := hn
  change respond c a s = _ at hp
  cases a with
  | mkstemp directory =>
    obtain ⟨w, l⟩ := s
    cases c with
    | name random lost =>
      simp only [respond] at hp
      split at hp
      · cases hp
      · split at hp <;> cases hp <;> exact .none ⟨rfl, rfl⟩
    | fail done =>
      cases done <;> cases hp
      exact .none ⟨rfl, rfl⟩
    | _ => cases hp
  | fchmod | fsync | openDir | fsyncDir | closeDir => exact .none (events_of_plain hp)
  | write | flush | close => exact .none (events_of_passOn hp)
  | replace src dst =>
    cases he : s.1.disk.entries src with
    | none =>
      obtain ⟨w, l⟩ := s
      have he' : w.disk.entries src = none := he
      simp only [respond, he'] at hp
      cases c with
      | ok => cases hp; exact .none ⟨rfl, rfl⟩
      | fail done => cases done <;> cases hp; exact .none ⟨rfl, rfl⟩
      | _ => cases hp
    | some k =>
      rcases next_replace he hnext with ⟨-, rfl⟩ | ⟨-, rfl | rfl⟩
      · exact both_note dst _ (_, _)
      · exact both_note dst _ (_, _)
      · exact .none ⟨rfl, rfl⟩
  | unlink path =>
    rcases next_unlink hnext with ⟨-, ⟨-, rfl⟩ | ⟨-, rfl⟩⟩ | ⟨-, ⟨-, rfl⟩ | ⟨-, rfl | rfl⟩⟩
    · exact both_note path _ s
    · exact .none ⟨rfl, rfl⟩
    · exact both_note path _ (_, _)
    · exact both_note path _ (_, _)
    · exact .none ⟨rfl, rfl⟩
  | openRead path =>
    obtain ⟨w, l⟩ := s
    have hsaw := both_note path (.saw path (w.disk.read path)) (w, l)
    simp only [respond] at hp
    cases he : w.disk.entries path <;> rw [he] at hp <;> cases c <;> cases hp <;> first
      | exact hsaw
      | exact .none ⟨rfl, rfl⟩
  | fdopen | readAll | closeRead => cases c <;> cases hp <;> exact .none ⟨rfl, rfl⟩

theorem both_of_steps {α : Type} {p p' : P α} {s s' : State} (h : sem.Steps Fresh p s p' s') :
    Both s s' := by
  induction h with
  | refl => exact .none ⟨rfl, rfl⟩
  | step hn _ ih => exact (both_of_next hn).trans ih

/-- The steps of one process are a run. -/
theorem run_of_steps {c : Procs asked} {i : Nat} (op : { op // asked op }) {p p' : P Unit}
    {s' : State} (hr : c.running i = some (op, p))
    (hs : sem.Steps Fresh p (c.shared, c.own i) p' s') :
    Run asked c ⟨s'.1, Function.update c.own i s'.2,
      Function.update c.running i (some (op, p'))⟩ := by
  generalize hp : (c.shared, c.own i) = s at hs
  induction hs generalizing c with
  | refl =>
    subst hp
    rw [Function.update_eq_self, ← hr, Function.update_eq_self]
    exact .refl
  | @step β a k s r s₁ p' s' hn _ ih =>
    subst hp
    have hstep : (system asked).Step Fresh True i c
        ⟨s₁.1, Function.update c.own i s₁.2, Function.update c.running i (some (op, k r))⟩ :=
      .act hr hn
    refine .head (.step hstep) ?_
    have := ih (c := ⟨s₁.1, Function.update c.own i s₁.2,
        Function.update c.running i (some (op, k r))⟩)
      (Function.update_self ..) (Prod.ext rfl (Function.update_self ..))
    simp only [Function.update_idem] at this
    exact this

/-- What one operation does when nobody comes between: nothing, or the one thing that stands for it
in the log. -/
theorem solo {c : Procs asked} {i : Nat} (op : { op // asked op }) {out : Except Exn Unit}
    {s' : State} (h : Reached asked w₀ c) (hidle : c.running i = none)
    (hs : sem.Runs Fresh op.1.program (c.shared, c.own i) out s') :
    ((∃ e, out = .error e) ∧ ∀ p : RealPath, s'.1.disk.read p.1 = c.shared.disk.read p.1) ∨
      ∃ e, op.1.Answers e ∧ s'.2.events = e :: (c.own i).events ∧
        (∀ p v, e = .saw p v → isTemp p = false → v = c.shared.disk.read p) ∧ ∀ p :
        RealPath, s'.1.disk.read p.1 = replay (fun n => c.shared.disk.read n) [e] p.1 := by
  have hgood := good_of_reached h
  obtain ⟨-, ht⟩ := hgood.global
  have hpost : Post op.1 c.shared.log (c.own i).events out s'.1 s'.2 := by
    have hi : Idle c.shared (c.own i) := by
      have := hgood.sound i
      rw [hidle] at this
      exact this
    exact Safe.runs isRely (safe_program op.1 (before _ hi)) hs
  obtain ⟨es, hlog, hevents⟩ := both_of_steps hs
  -- the run as one of the system
  have hstart : Moves asked c ⟨c.shared, c.own,
      Function.update c.running i (some (op, op.1.program))⟩ := .step (.start op hidle)
  have hrun := run_of_steps
      (c := ⟨c.shared, c.own, Function.update c.running i (some (op, op.1.program))⟩) op
    (Function.update_self ..) hs
  obtain ⟨-, ht'⟩ := (good_of_run hgood (.head hstart hrun)).global
  have hread : ∀ p : RealPath, s'.1.disk.read p.1 = replay (fun n => w₀.disk.read n)
      (es ++ c.shared.log) p.1 := fun p => by
    rw [← hlog]
    exact ht'.current p.1 p.2
  have hlegal : Legal (fun n => w₀.disk.read n) (es ++ c.shared.log) := hlog ▸ ht'.legal
  rcases hpost.events with ⟨he, herr⟩ | ⟨e, ha, -, he⟩
  · obtain rfl : es = [] := List.append_left_eq_self.1 (hevents.symm.trans he)
    exact Or.inl ⟨herr, fun p => (hread p).trans (ht.current p.1 p.2).symm⟩
  · obtain rfl : es = [e] :=
      List.append_cancel_right (hevents.symm.trans he : es ++ (c.own i).events = [e] ++
      (c.own i).events)
    refine Or.inr ⟨e, ha, he, ?_, fun p => (hread p).trans ?_⟩
    · rintro p v rfl hp
      exact hlegal.1.trans (ht.current p hp).symm
    · cases e with
      | put q v =>
        simp only [List.singleton_append, replay]
        rw [ht.current p.1 p.2]
      | saw q v =>
        simp only [List.singleton_append, replay]
        rw [ht.current p.1 p.2]
      | powerLoss after => rfl

/-! ## Through the contents of the paths -/

/-- The disk holds the files of the world, each under its path and written out. -/
def Shows (name : Path → RealPath) (encode : Content → List UInt8) (w : World) (d : Disk String) :
    Prop :=
  ∀ p, (d.read (name p).1).map File.data = (w.files p).map encode

section Shows
variable {name : Path → RealPath} {encode : Content → List UInt8} {w : World} {c : Procs asked}
  {i : Nat} {s' : State}
variable {l : WebProxyPanel.Own} {c' : Procs fun _ => True}

theorem Shows.same (h : Shows name encode w c.shared.disk)
    (hr : ∀ p : RealPath, s'.1.disk.read p.1 = c.shared.disk.read p.1) :
    Shows name encode w s'.1.disk := fun p => by rw [hr]; exact h p

theorem Shows.set (hname : Function.Injective name) (h : Shows name encode w c.shared.disk)
    {p : Path} {v : Option File} {data : Option Content} (hv : v.map File.data = data.map encode)
    (hr : ∀ q : RealPath, s'.1.disk.read q.1 = if q.1 = (name p).1 then v else
      c.shared.disk.read q.1) :
    Shows name encode (w.setFile p data) s'.1.disk := by
  intro q
  rw [hr, World.setFile_files]
  by_cases hq : q = p
  · subst hq
    rw [if_pos rfl, if_pos rfl]
    exact hv
  · have hne : (name q).1 ≠ (name p).1 := fun hn => hq (hname (Subtype.ext hn))
    rw [if_neg hne, if_neg hq]
    exact h q

/-- The answers of `plain` to a run that has ended: it returned and had its effect, or it raised
with or without. -/
theorem plain_of_outcome (effect : World → World) (out : Except Exn Unit) {w' : World}
    (h : w' = effect w ∨ (w' = w ∧ ∃ e, out = .error e)) :
    ∃ ch r, WebProxyPanel.plain ch effect (w, l) = some (r, (w', l)) ∧ r.isOk = out.isOk := by
  rcases h with rfl | ⟨rfl, e, rfl⟩
  · cases out with
    | ok => exact ⟨.ok, _, rfl, rfl⟩
    | error => exact ⟨.fail "" true, _, rfl, rfl⟩
  · exact ⟨.fail "" false, _, rfl, rfl⟩

theorem writeFile_refines (hname : Function.Injective name) {p : Path} {data : Content} {mode : Nat}
    {out : Except Exn Unit} (hop : asked (.writeFile (name p) (encode data) mode))
    (h : Reached asked w₀ c) (hidle : c.running i = none) (hw : Shows name encode w c.shared.disk)
    (hs : sem.Runs Fresh (writeFile (name p).1 (encode data) mode) (c.shared, c.own i) out s') :
    ∃ ch r w', WebProxyPanel.respond ch (.writeFile p data) (w, l) = some (r, (w', l)) ∧
      r.isOk = out.isOk ∧
      Shows name encode w' s'.1.disk := by
  rcases solo ⟨_, hop⟩ h hidle hs with ⟨he, hread⟩ | ⟨e, ha, -, -, hread⟩
  · obtain ⟨ch, r, hr, hok⟩ := plain_of_outcome (l := l) (w := w) (World.setFile p (some data)) out
        (Or.inr ⟨rfl, he⟩)
    exact ⟨ch, r, w, hr, hok, hw.same hread⟩
  · cases e with
    | put q v =>
      obtain ⟨rfl, rfl⟩ := ha
      obtain ⟨ch, r, hr, hok⟩ := plain_of_outcome (l := l) (w := w) (World.setFile p (some data))
          out (Or.inl rfl)
      exact ⟨ch, r, _, hr, hok, hw.set hname rfl hread⟩
    | saw => exact ha.elim
    | powerLoss => exact ha.elim

theorem removeFile_refines (hname : Function.Injective name) {p : Path} {out : Except Exn Unit}
    (hop : asked (.removeFile (name p))) (h : Reached asked w₀ c) (hidle : c.running i = none)
    (hw : Shows name encode w c.shared.disk)
    (hs : sem.Runs Fresh (removeFile (name p).1) (c.shared, c.own i) out s') :
    ∃ ch r w', WebProxyPanel.respond ch (.removeFile p) (w, l) = some (r, (w', l)) ∧
      r.isOk = out.isOk ∧
      Shows name encode w' s'.1.disk := by
  rcases solo ⟨_, hop⟩ h hidle hs with ⟨he, hread⟩ | ⟨e, ha, -, hsaw, hread⟩
  · obtain ⟨ch, r, hr, hok⟩ := plain_of_outcome (l := l) (w := w) (World.setFile p none) out
        (Or.inr ⟨rfl, he⟩)
    exact ⟨ch, r, w, hr, hok, hw.same hread⟩
  · obtain ⟨ch, r, hr, hok⟩ :=
      plain_of_outcome (l := l) (w := w) (World.setFile p none) out (Or.inl rfl)
    refine ⟨ch, r, _, hr, hok, ?_⟩
    cases e with
    | put q v =>
      obtain ⟨rfl, rfl⟩ := ha
      exact hw.set hname rfl hread
    | saw q v =>
      -- there was nothing to remove
      obtain ⟨rfl, rfl⟩ := ha
      refine hw.set (v := none) hname rfl fun r' => (hread r').trans ?_
      change c.shared.disk.read r'.1 = _
      split
      · rename_i he
        rw [he]
        exact (hsaw _ _ rfl (name p).2).symm
      · rfl
    | powerLoss => exact ha.elim

theorem readFile_refines {p : Path} {out : Except Exn (Option (List UInt8))}
    (hop : asked (.readFile (name p))) (h : Reached asked w₀ c) (hidle : c.running i = none)
    (hw : Shows name encode w c.shared.disk)
    (hs : sem.Runs Fresh (readFile (name p).1) (c.shared, c.own i) out s') :
    ∃ ch r, WebProxyPanel.respond ch (.readFile p) (w, l) = some (r, (w, l)) ∧
      Shows name encode w s'.1.disk ∧
      out.toOption = r.toOption.map (Option.map encode) := by
  -- the same run, of an operation that drops what it has read
  have hprogram : sem.Runs Fresh (FileOp.readFile (name p)).program (c.shared, c.own i)
      (out.map fun _ => ()) s' := by
    have hbind := Sem.Steps.bind (fun _ => (.ret () : P Unit)) hs
    cases out <;> exact hbind
  have hsame : ∀ q : RealPath, s'.1.disk.read q.1 = c.shared.disk.read q.1 := by
    rcases solo ⟨_, hop⟩ h hidle hprogram with ⟨-, hread⟩ | ⟨e, ha, -, -, hread⟩
    · exact hread
    · cases e with
      | saw q v => exact hread
      | put => exact ha.elim
      | powerLoss => exact ha.elim
  have hi : Idle c.shared (c.own i) := by
    have := (good_of_reached h).sound i
    rw [hidle] at this
    exact this
  have hpost := Safe.runs isRely (safe_readFile (before c.shared hi)) hs
  cases out with
  | error e => exact ⟨.fail "" false, _, rfl, hw.same hsame, rfl⟩
  | ok bytes =>
    refine ⟨.ok, _, rfl, hw.same hsame, ?_⟩
    obtain ⟨v, hseen, rfl, -⟩ := hpost
    have hv : v = c.shared.disk.read (name p).1 := by
      rcases solo ⟨_, hop⟩ h hidle hprogram with ⟨⟨e, he⟩, -⟩ | ⟨e, -, hevents, hsaw, -⟩
      · cases he
      · rw [hseen.events, List.cons.injEq] at hevents
        exact hsaw _ v hevents.1.symm (name p).2
    change some (v.map File.data) = some ((w.files p).map encode)
    rw [hv, hw p]

/-- The three operations on files, by a process that nobody comes between: what the program does to
the files, and how it ends, is an answer of the one step that stands for it. -/
theorem file_operations_refine (hname : Function.Injective name) (h : Reached (fun _ => True) w₀ c')
    (hidle : c'.running i = none) (hw : Shows name encode w c'.shared.disk) (p : Path) :
    (∀ data mode out s', sem.Runs Fresh (writeFile (name p).1 (encode data) mode)
      (c'.shared, c'.own i) out s' →
      ∃ ch r w', WebProxyPanel.respond ch (.writeFile p data) (w, l) = some (r, (w', l)) ∧
        r.isOk = out.isOk ∧
        Shows name encode w' s'.1.disk) ∧
    (∀ out s', sem.Runs Fresh (removeFile (name p).1) (c'.shared, c'.own i) out s' →
      ∃ ch r w', WebProxyPanel.respond ch (.removeFile p) (w, l) = some (r, (w', l)) ∧
        r.isOk = out.isOk ∧
        Shows name encode w' s'.1.disk) ∧
    ∀ out s', sem.Runs Fresh (readFile (name p).1) (c'.shared, c'.own i) out s' →
      ∃ ch r, WebProxyPanel.respond ch (.readFile p) (w, l) = some (r, (w, l)) ∧
        Shows name encode w s'.1.disk ∧
        out.toOption = r.toOption.map (Option.map encode) :=
  ⟨fun _ _ _ _ hs => writeFile_refines hname trivial h hidle hw hs,
    fun _ _ hs => removeFile_refines hname trivial h hidle hw hs,
    fun _ _ hs => readFile_refines trivial h hidle hw hs⟩

end Shows

/-- The bytes of a file that holds a text. -/
def textBytes : Content → List UInt8
  | .text t => t.toUTF8.toList
  | _ => []

/-- A machine that starts with one of the files. -/
def presentDisk : Shared where
  disk := ⟨fun n => if n = (installed (.shardEnv 0)).1 then some 0 else none, fun _ => [],
    fun _ => ⟨⟨textBytes (.text "SECRETS=old\n"), 0o600⟩, true⟩, 1⟩
  drawn := []
  log := []
  stray := []

theorem settled_presentDisk : Settled presentDisk where
  past _ := rfl
  synced _ := rfl
  bound n i h := by
    have hentry : (if n = (installed (.shardEnv 0)).1 then some 0 else none) = some i := h
    split at hentry
    · rw [← Option.some.inj hentry]
      exact Nat.zero_lt_one
    · cases hentry
  stray t ht h := by
    refine absurd (if_neg ?_) h
    rintro rfl
    rw [(installed (.shardEnv 0)).2] at ht
    cases ht
  log := rfl

def presentWorld : World := World.initial.setFile (.shardEnv 0) (some (.text "SECRETS=old\n"))

theorem shows_present : Shows installed textBytes presentWorld presentDisk.disk := by
  intro p
  rw [presentWorld, World.setFile_files]
  by_cases hp : p = .shardEnv 0
  · subst hp
    rfl
  · have hne : (installed p).1 ≠ (installed (.shardEnv 0)).1 :=
      fun h => hp (installed_injective (Subtype.ext h))
    have hread : presentDisk.disk.read (installed p).1 = none := by
      show (if (installed p).1 = (installed (.shardEnv 0)).1 then some 0 else none).map _ = none
      rw [if_neg hne]
      rfl
    rw [if_neg hp, hread]
    rfl

/-- The first process, before anything has happened. -/
def firstState : State := (presentDisk, (booted (fun _ => True) presentDisk).own 0)

/-- `mkstemp`, all bytes at once, and the rest without a failure. -/
def writeAtOnce : List Choice :=
  [.name "aaaaaaaa" false, .ok, .ok, .took 12 false, .took 0 false, .ok, .took 0 false, .ok,
    .ok, .ok, .ok]

theorem present_runs :
    ((sem.play fresh [.ok, .ok, .ok] (readFile (installed (.shardEnv 0)).1) firstState).map fun x =>
      x.1.outcome?) =
        some (some (.ok (some (textBytes (.text "SECRETS=old\n"))))) ∧
      ((sem.play fresh writeAtOnce
        (writeFile (installed (.shardEnv 0)).1 (textBytes (.text "SECRETS=new\n")) 0o600)
        firstState).map fun x => x.1.outcome?) = some (some (.ok ())) ∧
      ((sem.play fresh [.ok] (removeFile (installed (.shardEnv 0)).1) firstState).map fun x =>
        x.1.outcome?) =
        some (some (.ok ())) := by decide +kernel

/-- The file is read, replaced and removed, each time from the same start. -/
theorem file_operations_refine_installed :
    (∃ s', sem.Runs Fresh (readFile (installed (.shardEnv 0)).1) firstState
      (.ok (some (textBytes (.text "SECRETS=old\n")))) s' ∧
      ∃ ch r, WebProxyPanel.respond ch (.readFile (.shardEnv 0))
        (presentWorld, WebProxyPanel.Own.idle 0) =
        some (r, (presentWorld, WebProxyPanel.Own.idle 0)) ∧
          Shows installed textBytes presentWorld s'.1.disk ∧
        some (some (textBytes (.text "SECRETS=old\n"))) = r.toOption.map (Option.map textBytes)) ∧
    (∃ s', sem.Runs Fresh (writeFile (installed (.shardEnv 0)).1 (textBytes (.text "SECRETS=new\n"))
      0o600) firstState (.ok ()) s' ∧
      ∃ ch r w', WebProxyPanel.respond ch (.writeFile (.shardEnv 0) (.text "SECRETS=new\n"))
        (presentWorld, WebProxyPanel.Own.idle 0) =
        some (r, (w', WebProxyPanel.Own.idle 0)) ∧ r.isOk = true ∧
          Shows installed textBytes w' s'.1.disk) ∧
    ∃ s', sem.Runs Fresh (removeFile (installed (.shardEnv 0)).1) firstState (.ok ()) s' ∧
      ∃ ch r w', WebProxyPanel.respond ch (.removeFile (.shardEnv 0))
        (presentWorld, WebProxyPanel.Own.idle 0) =
        some (r, (w', WebProxyPanel.Own.idle 0)) ∧ r.isOk = true ∧
          Shows installed textBytes w' s'.1.disk := by
  have hreached : Reached (fun _ => True) presentDisk (booted (fun _ => True) presentDisk) :=
    ⟨settled_presentDisk, .refl⟩
  obtain ⟨hwrite, hremove, hread⟩ := file_operations_refine (i := 0) (l := WebProxyPanel.Own.idle 0)
      installed_injective hreached rfl
    shows_present (.shardEnv 0)
  obtain ⟨hreads, hwrites, hremoves⟩ := present_runs
  refine ⟨?_, ?_, ?_⟩
  · obtain ⟨⟨p, s'⟩, hplay, hout⟩ := Option.map_eq_some_iff.1 hreads
    obtain rfl := Prog.outcome?_eq_some.1 hout
    have hruns := Sem.Steps.of_play hplay
    exact ⟨s', hruns, hread _ _ hruns⟩
  · obtain ⟨⟨p, s'⟩, hplay, hout⟩ := Option.map_eq_some_iff.1 hwrites
    obtain rfl := Prog.outcome?_eq_some.1 hout
    have hruns := Sem.Steps.of_play hplay
    exact ⟨s', hruns, hwrite _ _ _ _ hruns⟩
  · obtain ⟨⟨p, s'⟩, hplay, hout⟩ := Option.map_eq_some_iff.1 hremoves
    obtain rfl := Prog.outcome?_eq_some.1 hout
    have hruns := Sem.Steps.of_play hplay
    exact ⟨s', hruns, hremove _ _ hruns⟩

end Storage
end WebProxyPanel
