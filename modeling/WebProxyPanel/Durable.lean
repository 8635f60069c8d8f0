import WebProxyPanel.StorageSafe
/-!
# Files are written whole, once, and for good

For any number of processes and any order of their steps, with exceptions out of every call,
processes that are killed, and losses of power.

* `whole_files` — nobody ever finds a part of a file, nor does anybody after a loss of power.
* `written_for_good` — what `write_file` has returned from survives.
* `one_instant` — each operation happens at one instant between its beginning and its end.
* `no_litter` — temporary files are left by kills and losses of power only, or when they cannot be
  removed.
-/

namespace WebProxyPanel
namespace Storage
open Effects Files

variable {asked : FileOp → Prop} {w₀ : Shared}

/-- What holds of the files in any run. -/
def Kept (asked : FileOp → Prop) (w₀ w : Shared) (ls : Nat → Own) : Prop :=
  Owned w ls ∧ Told asked w₀ w ls

theorem before (w : Shared) {l : Own} (h : Idle w l) : Before w.log l.events w l :=
  ⟨h, rfl, List.suffix_refl _⟩

theorem composes (asked : FileOp → Prop) (w₀ : Shared) :
    (system asked).Composes Fresh True Rely (fun op => guard op.1) Idle (Kept asked w₀) where
  rely := isRely
  idle _ _ _ _ h := h
  safe op w l h := (safe_program op.1 (before w h)).mono fun _ _ _ hp => hp.temp
  act w ls i op _ a r w' l' hk hg hn := by
    have hd := does_of_next hg hn
    exact ⟨⟨hk.1.does hd, hk.2.does hk.1 op.2 hd⟩, fun j hj => hk.1.rely hd hj⟩
  stop _ w ls i hk := by
    refine ⟨⟨hk.1.kill, hk.2.kill⟩, fun j _ => ?_, rfl⟩
    exact ⟨fun _ _ _ => ⟨rfl, rfl⟩, fun _ _ _ => rfl, fun _ _ _ he => he,
      List.Subset.refl _, .refl w⟩

/-- What holds of every configuration. -/
abbrev GoodFiles (asked : FileOp → Prop) (w₀ : Shared) (c : Procs asked) : Prop :=
  System.Good (system asked) Fresh Rely (fun op => guard op.1) Idle (Kept asked w₀) c

/-- With no process around, what is asked of the disk and of the log is enough. -/
theorem good_booted {w : Shared} (hbound : ∀ n i, w.disk.Refers n i → i < w.disk.next)
    (hwhole : ∀ n i, isTemp n = false → w.disk.Refers n i → (w.disk.inodes i).synced = true)
    (hlitter : ∀ t i, isTemp t = true → w.disk.Refers t i → t ∈ w.stray)
    (hasked : ∀ n v, .put n v ∈ w.log → isTemp n = false ∧ ∃ op, asked op ∧ op.Puts n v)
    (hknown : ∀ n, isTemp n = false → ∀ v ∈ w.disk.may n, Known w₀ w n v)
    (hcurrent : ∀ n, isTemp n = false → w.disk.read n = replay (fun n => w₀.disk.read n) w.log n)
    (hlegal : Legal (fun n => w₀.disk.read n) w.log) : GoodFiles asked w₀ (booted asked w) := by
  have htemp : ∀ {t : String} {i : Nat}, Own.idle.temp ≠ some (t, i) := fun h => nomatch h
  refine ⟨⟨⟨hbound, fun _ t i h => absurd h htemp, fun _ t i h => absurd h htemp, fun _ _ t i _ h =>
    absurd h htemp, hwhole,
    fun _ _ _ h => (nomatch h), fun t i ht hr => Or.inr (hlitter t i ht hr), fun t ht he => ?_⟩,
    ⟨hasked, hknown, hcurrent, hlegal,
    fun _ _ _ h => (nomatch h), fun _ _ _ h => (nomatch h)⟩⟩, fun _ => rfl⟩
  obtain ⟨i, hi⟩ := Option.ne_none_iff_exists'.1 he
  exact Or.inl (hlitter t i ht (List.mem_cons.2 (Or.inl hi.symm)))

theorem good_settled (h : Settled w₀) : GoodFiles asked w₀ (booted asked w₀) := by
  have hrefers : ∀ n i, w₀.disk.Refers n i → w₀.disk.entries n = some i := by
    intro n i hr
    unfold Disk.Refers at hr
    rw [h.past n, List.mem_singleton] at hr
    exact hr.symm
  refine good_booted (fun n i hr => h.bound n i (hrefers n i hr)) (fun _ i _ _ => h.synced i)
    (fun t i ht hr => ?_) (fun n v hv => ?_) (fun n _ v hv => ?_) (fun n _ => ?_) ?_
  · refine h.stray t ht ?_
    rw [hrefers t i hr]
    exact Option.some_ne_none i
  · rw [h.log] at hv
    cases hv
  · rw [Disk.may, h.past n] at hv
    exact Or.inl (List.mem_singleton.1 hv)
  · rw [h.log]
    rfl
  · rw [h.log]
    trivial

/-- After a loss of power the same holds as before. -/
theorem good_afterLoss {c : Procs asked} {d : Disk String} (h : GoodFiles asked w₀ c)
    (hp : c.shared.disk.PowerLoss d) :
    GoodFiles asked w₀ (booted asked (afterLoss d c.shared)) := by
  obtain ⟨ho, ht⟩ := h.global
  refine good_booted (fun n i hr => ?_) (fun _ i _ _ => hp.synced i) (fun t i htemp hr => ?_)
    (fun n v hv => ?_) (fun n hn v hv => ?_) (fun n _ => rfl) ht.legal
  · exact hp.next ▸ ho.bound n i (hp.refers hr)
  · exact List.mem_append.2 (ho.litter t i htemp (hp.refers hr))
  · exact ht.asked n v ((List.mem_cons.1 hv).resolve_left fun he => nomatch he)
  · obtain ⟨u, hu, hd⟩ := hp.may (n := n) fun i hr => ho.whole n i hn hr
    change v ∈ d.may n at hv
    rw [hd, List.mem_singleton] at hv
    subst hv
    exact (ht.known n hn v hu).imp id (List.mem_cons_of_mem _)

theorem good_of_run {c c' : Procs asked} (h : GoodFiles asked w₀ c) (hr : Run asked c c') :
    GoodFiles asked w₀ c' := by
  induction hr with
  | refl => exact h
  | tail _ hm ih =>
    cases hm with
    | step hs => exact ih.step (composes asked w₀) hs
    | powerLoss hp => exact good_afterLoss ih hp

theorem good_of_reached {c : Procs asked} (h : Reached asked w₀ c) : GoodFiles asked w₀ c :=
  good_of_run (good_settled h.1) h.2

/-! ## Whole files -/

/-- What was at the path when the machine was first started, or what an operation has put there that
was asked for. -/
def Whole (asked : FileOp → Prop) (w₀ w : Shared) (p : String) (v : Option File) : Prop :=
  v = w₀.disk.read p ∨ .put p v ∈ w.log ∧ ∃ op, asked op ∧ op.Puts p v

theorem Told.whole {w : Shared} {ls : Nat → Own} (h : Told asked w₀ w ls) {p : String}
    {v : Option File} (hk : Known w₀ w p v) :
    Whole asked w₀ w p v := hk.imp id fun hl => ⟨hl, (h.asked p v hl).2⟩

/-- In every run, whoever opens a path finds what was there at first or all of what some operation
has put there; so does whoever looks after a loss of power, and so do those who read on while the
file is being replaced. -/
theorem whole_files {c : Procs asked} (h : Reached asked w₀ c) :
    (∀ p : RealPath, Whole asked w₀ c.shared p.1 (c.shared.disk.read p.1)) ∧
      (∀ d, c.shared.disk.PowerLoss d → ∀ p : RealPath, Whole asked w₀ c.shared p.1 (d.read p.1)) ∧
      ∀ i p b, (c.own i).got = some (p, b) → ∃ mode,
        Whole asked w₀ c.shared p (some ⟨b, mode⟩) := by
  obtain ⟨ho, ht⟩ := (good_of_reached h).global
  refine ⟨fun p => ht.whole (ht.known p.1 p.2 _ (Disk.read_mem_may _ _)), fun d hd p => ?_,
    fun i p b hg => ?_⟩
  · obtain ⟨v, hv, hmay⟩ := hd.may (n := p.1) fun i hr => ho.whole p.1 i p.2 hr
    have hread : d.read p.1 = v := List.head_eq_of_cons_eq hmay
    rw [hread]
    exact ht.whole (ht.known p.1 p.2 v hv)
  · obtain ⟨m, hm⟩ := ht.got i p b hg
    exact ⟨m, ht.whole hm⟩

/-! A file is written on an empty disk. -/

def emptyDisk : Shared where
  disk := ⟨fun _ => none, fun _ => [], fun _ => ⟨⟨[], 0⟩, true⟩, 0⟩
  drawn := []
  log := []
  stray := []

theorem settled_emptyDisk : Settled emptyDisk where
  past _ := rfl
  synced _ := rfl
  bound _ _ h := nomatch h
  stray _ _ h := absurd rfl h
  log := rfl

def anyOp (_ : FileOp) : Prop := True

def samplePath : RealPath := ⟨"/e/p", by decide +kernel⟩

def sampleOp : FileOp := .writeFile samplePath [1, 2] 0o600

def sampleWrite : { op // anyOp op } := ⟨sampleOp, trivial⟩

/-- One byte is passed on at once, the other at the flush. -/
def writing : List Choice :=
  [.name "aaaaaaaa" false, .ok, .ok, .took 1 false, .took 1 false, .ok, .took 0 false, .ok,
    .ok, .ok, .ok]

/-- The turns of one process that runs an operation, as far as these choices go. -/
def turnsOf (i : Nat) (op : { op // asked op }) (cs : List Choice) :
    List (Nat × System.Turn { op // asked op } Choice) :=
  (i, .start op) :: cs.map fun c => (i, .act c)

/-- The path after `os.replace` but before the directory is synced, now and if the power goes;
nobody does anything else. -/
theorem writing_replaced :
    (((system (· = sampleOp)).run fresh (turnsOf 0 ⟨sampleOp, rfl⟩ (writing.take 8))
      (booted (· = sampleOp) emptyDisk)).map fun c =>
        (c.shared.disk.read samplePath.1, c.shared.disk.undo.read samplePath.1)) =
          some (some ⟨[1, 2], 0o600⟩, none) := by decide +kernel

theorem run_of_reachable {c c' : Procs asked} (h : (system asked).Reachable Fresh True c c') :
    Run asked c c' :=
  Relation.ReflTransGen.mono (fun _ _ ⟨_, hs⟩ => .step hs) _ _ h

theorem whole_files_replaced :
    ∃ c : Procs (· = sampleOp), c.shared.disk.read samplePath.1 = some ⟨[1, 2], 0o600⟩ ∧
    .put samplePath.1 (some ⟨[1, 2], 0o600⟩) ∈ c.shared.log ∧
      c.shared.disk.undo.read samplePath.1 = none ∧
    Whole (· = sampleOp) emptyDisk c.shared samplePath.1 none := by
  obtain ⟨c, hrun, hc⟩ := Option.map_eq_some_iff.1 writing_replaced
  obtain ⟨hnow, hundo⟩ := Prod.mk.inj hc
  have hreached : Reached (· = sampleOp) emptyDisk c :=
    ⟨settled_emptyDisk, run_of_reachable (System.reachable_of_run hrun)⟩
  have hwhole := whole_files hreached
  have hread := hwhole.1 samplePath
  have hloss := hwhole.2.1 _ (Disk.powerLoss_undo _) samplePath
  rw [hnow] at hread
  rw [hundo] at hloss
  -- there was nothing on the disk at first
  exact ⟨c, hnow, (hread.resolve_left fun h => nomatch h).1, hundo, hloss⟩

/-! ## For good -/

/-- Later on, over losses of power too: what a loss of power may leave at a path was so then, or has
been put there since. -/
def Lasts (w w' : Shared) : Prop :=
  ∃ new, w'.log = new ++ w.log ∧ ∀ n, isTemp n = false → ∀ v ∈ w'.disk.may n, v ∈ w.disk.may n ∨
    .put n v ∈ new

theorem Since.lasts {w w' : Shared} (h : Since w w') : Lasts w w' := by
  obtain ⟨new, hl, hn⟩ := h
  exact ⟨new, hl, fun n hreal => (hn n hreal).1⟩

theorem Lasts.trans {w₁ w₂ w₃ : Shared} (h : Lasts w₁ w₂) (h' : Lasts w₂ w₃) : Lasts w₁ w₃ := by
  obtain ⟨new, hl, hn⟩ := h
  obtain ⟨new', hl', hn'⟩ := h'
  refine ⟨new' ++ new, by rw [hl', hl, List.append_assoc], fun n hreal v hv => ?_⟩
  rcases hn' n hreal v hv with hv | hv
  · exact (hn n hreal v hv).imp id (List.mem_append_right _)
  · exact Or.inr (List.mem_append_left _ hv)

theorem lasts_of_step {c c' : Procs asked} {i : Nat} (h : GoodFiles asked w₀ c)
    (hs : (system asked).Step Fresh True i c c') : Lasts c.shared c'.shared := by
  cases hs with
  | start => exact (Since.refl _).lasts
  | act hr hn => exact (since_of_does h.global.1 (does_of_next (h.guard isRely hr) hn)).lasts
  | finish => exact (Since.refl _).lasts
  | stop => exact (Since.refl c.shared).lasts

theorem lasts_of_run {c c' : Procs asked} (h : GoodFiles asked w₀ c) (hr : Run asked c c') :
    Lasts c.shared c'.shared := by
  induction hr with
  | refl => exact (Since.refl _).lasts
  | @tail c₁ c₂ hr hm ih =>
    have h₁ := good_of_run h hr
    refine ih.trans ?_
    cases hm with
    | step hs => exact lasts_of_step h₁ hs
    | @powerLoss d hp =>
      refine ⟨[_], rfl, fun n hn v hv => Or.inl ?_⟩
      obtain ⟨u, hu, hd⟩ := hp.may (n := n) fun i hr => h₁.global.1.whole n i hn hr
      change v ∈ d.may n at hv
      rw [hd, List.mem_singleton] at hv
      exact hv ▸ hu

/-- What an operation leaves behind when it has ended, whatever the others do meanwhile. -/
theorem post_of_during {c₀ c : Procs asked} {i : Nat} {op : { op // asked op }}
    {ws : List (Shared × Shared)} {out : Except Exn Unit} (h : Reached asked w₀ c₀)
    (hd : (system asked).During Fresh True i op c₀ ws c)
    (hend : c.running i = some (op, .ended out)) :
    GoodFiles asked w₀ c ∧ Post op.1 c₀.shared.log (c₀.own i).events out c.shared (c.own i) := by
  have h₀ := good_of_reached h
  have hi : Idle c₀.shared (c₀.own i) := by
    have := h₀.sound i
    rw [hd.idle] at this
    exact this
  obtain ⟨hgood, p, hp, hs⟩ :=
    System.During.safe (composes asked w₀) h₀ (safe_program op.1 (before _ hi)) hd
  rw [hend, Option.some.injEq, Prod.mk.injEq] at hp
  obtain ⟨-, rfl⟩ := hp
  refine ⟨hgood, ?_⟩
  cases out with
  | ok a => exact hs _ (isRely.refl _ _)
  | error e => exact hs _ (isRely.refl _ _)

/-- When `write_file` has returned, every later loss of power leaves at the path the file that it
has written, whole, or one that was put there after it. -/
theorem written_for_good {c₀ c c' : Procs asked} {i : Nat} {path : RealPath} {data : List UInt8}
    {mode : Nat} {ws : List (Shared × Shared)} {d : Disk String}
    (hop : asked (.writeFile path data mode)) (h : Reached asked w₀ c₀)
    (hd : (system asked).During Fresh True i ⟨.writeFile path data mode, hop⟩ c₀ ws c)
    (hend : c.running i = some (⟨.writeFile path data mode, hop⟩, .ret ())) (hr : Run asked c c')
    (hp : c'.shared.disk.PowerLoss d) :
    ∃ after before, c'.shared.log = after ++ .put path.1 (some ⟨data, mode⟩) :: before ∧
      c₀.shared.log <:+ before ∧
      (d.read path.1 = some ⟨data, mode⟩ ∨ .put path.1 (d.read path.1) ∈ after) := by
  obtain ⟨hgood, hpost⟩ :=
    post_of_during h hd (show c.running i = some (_, .ended (.ok ())) from hend)
  obtain ⟨new, old, hl, hold, hmay⟩ := hpost.stored path data mode rfl rfl
  obtain ⟨new', hl', hlasts⟩ := lasts_of_run hgood hr
  refine ⟨new' ++ new, old, by rw [hl', hl, List.append_assoc], hold, ?_⟩
  obtain ⟨v, hv, hdmay⟩ := hp.may (n := path.1) fun i hr' =>
      (good_of_run hgood hr).global.1.whole path.1 i path.2 hr'
  have hread : d.read path.1 = v := List.head_eq_of_cons_eq hdmay
  rw [hread]
  rcases hlasts path.1 path.2 v hv with hv | hv
  · exact (hmay v hv).imp id (List.mem_append_right _)
  · exact Or.inr (List.mem_append_left _ hv)

theorem writing_runs :
    (((system anyOp).run fresh (turnsOf 0 sampleWrite writing) (booted anyOp emptyDisk)).map
      fun c =>
      (c.running 0).map fun x => x.2.outcome?) = some (some (some (.ok ()))) := by decide +kernel

/-- The whole operation, up to its return. -/
theorem writing_during : ∃ (ws : List (Shared × Shared)) (c : Procs anyOp),
    (system anyOp).During Fresh True 0 sampleWrite (booted anyOp emptyDisk) ws c ∧
      c.running 0 = some (sampleWrite, .ret ()) := by
  obtain ⟨c, hrun, hc⟩ := Option.map_eq_some_iff.1 writing_runs
  obtain ⟨c₁, ht, hrun⟩ := Option.bind_eq_some_iff.1 hrun
  have hstart : (system anyOp).During Fresh True 0 sampleWrite (booted anyOp emptyDisk) [] c₁ :=
    System.During.of_start ht
  obtain ⟨ws, hd⟩ := System.During.of_run hstart (by simp) hrun
  obtain ⟨p, hp⟩ := hd.running
  rw [hp, Option.map_some, Option.some.injEq] at hc
  obtain rfl : p = .ret () := Prog.outcome?_eq_some.1 hc
  exact ⟨ws, c, hd, hp⟩

theorem written_for_good_writing : ∃ (c : Procs anyOp) (after before : List Event),
    c.shared.log = after ++ .put samplePath.1 (some ⟨[1, 2], 0o600⟩) :: before ∧ [] <:+ before ∧
      (c.shared.disk.undo.read samplePath.1 = some ⟨[1, 2], 0o600⟩ ∨
        .put samplePath.1 (c.shared.disk.undo.read samplePath.1) ∈ after) := by
  obtain ⟨ws, c, hd, hend⟩ := writing_during
  exact ⟨c, written_for_good trivial ⟨settled_emptyDisk, .refl⟩ hd hend .refl
    (Disk.powerLoss_undo _)⟩

/-! ## At one instant -/

/-- The log is a history in which each operation happens at one instant: what is at a path is what
was put there last, those who look see just that, an operation that ends has one part in the
history, between its beginning and its end, or, if it raises, at most one, and what `read_file` has
read is all of the file that was there at that instant. -/
theorem one_instant {c₀ c : Procs asked} {i : Nat} {op : { op // asked op }}
    {ws : List (Shared × Shared)} {out : Except Exn Unit} (h : Reached asked w₀ c₀)
    (hd : (system asked).During Fresh True i op c₀ ws c)
    (hend : c.running i = some (op, .ended out)) :
    Legal (fun n => w₀.disk.read n) c.shared.log ∧
      (∀ p : RealPath, c.shared.disk.read p.1 = replay (fun n => w₀.disk.read n) c.shared.log p.1) ∧
      (((c.own i).events = (c₀.own i).events ∧ ∃ e, out = .error e) ∨
        ∃ e, op.1.Answers e ∧ Logged e c₀.shared.log c.shared ∧
          (c.own i).events = e :: (c₀.own i).events) ∧
      ∀ path, op.1 = .readFile path → out = .ok () →
        ∃ v, Logged (.saw path.1 v) c₀.shared.log c.shared ∧
          (c.own i).events = .saw path.1 v :: (c₀.own i).events ∧
          ∀ f, v = some f → (c.own i).got = some (path.1, f.data) := by
  obtain ⟨hgood, hpost⟩ := post_of_during h hd hend
  obtain ⟨-, ht⟩ := hgood.global
  refine ⟨ht.legal, fun p => ht.current p.1 p.2, hpost.events, fun path hop hout => ?_⟩
  rcases hpost.events with ⟨-, e, he⟩ | ⟨e, ha, hl, he⟩
  · rw [hout] at he
    cases he
  · rw [hop] at ha
    cases e with
    | saw p v =>
      obtain rfl : p = path.1 := ha
      refine ⟨v, hl, he, fun f hv => ?_⟩
      subst hv
      exact hpost.got path hop hout _ f he
    | put p v => exact ha.elim
    | powerLoss state => exact ha.elim

/-- The file is removed while a process reads it. -/
def reading : List (Nat × System.Turn { op // anyOp op } Choice) :=
  [(1, .act .ok)] ++ turnsOf 2 ⟨.removeFile samplePath, trivial⟩ [.ok] ++
    [(1, .act .ok), (1, .act .ok)]

/-- What was seen, if anything was looked for. -/
def Event.seen : Event → Option (String × Option File)
  | .saw p v => some (p, v)
  | _ => none

theorem reading_runs :
    (((system anyOp).run fresh (turnsOf 0 sampleWrite writing ++ [(0, .finish)])
      (booted anyOp emptyDisk)).bind fun c₀ =>
      ((system anyOp).turn fresh 1 (.start ⟨.readFile samplePath, trivial⟩) c₀).bind fun c₁ =>
        ((system anyOp).run fresh reading c₁).map fun c =>
          decide ((c.running 1).map (fun x => x.2.outcome?) = some (some (.ok ())) ∧
            (c₀.own 1).events.length = 0 ∧
            (c.own 1).events.map Event.seen = [some (samplePath.1, some ⟨[1, 2], 0o600⟩)] ∧
            c.shared.disk.read samplePath.1 = none)) = some true := by decide +kernel

/-- It gets all of what was there when it opened the file. -/
theorem one_instant_reading : ∃ c₀ c : Procs anyOp, c.shared.disk.read samplePath.1 = none ∧
    Logged (.saw samplePath.1 (some ⟨[1, 2], 0o600⟩)) c₀.shared.log c.shared ∧
      (c.own 1).got = some (samplePath.1, [1, 2]) := by
  obtain ⟨c₀, hbefore, h⟩ := Option.bind_eq_some_iff.1 reading_runs
  obtain ⟨c₁, hstart, h⟩ := Option.bind_eq_some_iff.1 h
  obtain ⟨c, hrun, hc⟩ := Option.map_eq_some_iff.1 h
  obtain ⟨hend, hnothing, hseen, hgone⟩ := of_decide_eq_true hc
  have hnothing := List.eq_nil_of_length_eq_zero hnothing
  have hreached : Reached anyOp emptyDisk c₀ :=
    ⟨settled_emptyDisk, run_of_reachable (System.reachable_of_run hbefore)⟩
  obtain ⟨ws, hd⟩ := System.During.of_run (System.During.of_start hstart)
      (by simp [reading, turnsOf]) hrun
  obtain ⟨p, hp⟩ := hd.running
  rw [hp, Option.map_some, Option.some.injEq] at hend
  obtain rfl : p = .ret () := Prog.outcome?_eq_some.1 hend
  obtain ⟨-, -, -, hread⟩ :=
    one_instant hreached hd (show c.running 1 = some (_, .ended (.ok ())) from hp)
  obtain ⟨v, hlogged, hevents, hgot⟩ := hread samplePath rfl rfl
  rw [hevents, hnothing, List.map_cons, List.cons.injEq, Event.seen, Option.some.injEq,
    Prod.mk.injEq] at hseen
  obtain rfl : v = some ⟨[1, 2], 0o600⟩ := hseen.1.2
  exact ⟨c₀, c, hgone, hlogged, hgot _ rfl⟩

/-! ## No litter -/

/-- No call leaves a temporary file for good: `mkstemp` does not raise after it has made one, and
what is unlinked goes. -/
def tidy (c : Choice) {β : Type} (a : Act β) (s : State) : Bool :=
  fresh c a s && match a, c with
    | .mkstemp _, .name _ lost => !lost
    | .unlink path, .fail done => done || (s.1.disk.entries path).isNone
    | _, _ => true

abbrev Tidy : Allow Act Choice State := fun c {_} a s => tidy c a s = true

theorem stray_of_plain {c : Choice} {f : Disk String → Disk String} {s s' : State}
    {r : Except Exn Unit} (h : plain c f s = some (r, s')) : s'.1.stray = s.1.stray := by
  unfold plain at h
  split at h <;> cases h <;> rfl

theorem stray_of_passOn {c : Choice} {fd : Nat} {waiting : List UInt8} {all : Bool} {s s' : State}
    {r : Except Exn Unit} (h : passOn c fd waiting all s = some (r, s')) :
    s'.1.stray = s.1.stray := by
  unfold passOn at h
  split at h
  · split at h
    · cases h
    · cases h
      rfl
  · cases h

theorem stray_of_next {s s' : State} {β : Type} {a : Act β} {r : Except Exn β}
    (hn : sem.Next Tidy s a r s') : s'.1.stray = s.1.stray := by
  obtain ⟨c, hok, hp⟩ := hn
  obtain ⟨hfresh, htidy⟩ := Bool.and_eq_true_iff.1 hok
  have hnext : sem.Next Fresh s a r s' := ⟨c, hfresh, hp⟩
  change respond c a s = _ at hp
  cases a with
  | mkstemp directory =>
    obtain ⟨w, l⟩ := s
    cases c with
    | name random lost =>
      obtain rfl : lost = false := by simpa using htidy
      simp only [respond] at hp
      split at hp
      · cases hp
      · rw [if_neg Bool.false_ne_true, Option.some.injEq, Prod.mk.injEq] at hp
        rw [← hp.2]
        rfl
    | fail done =>
      cases done <;> cases hp
      rfl
    | _ => cases hp
  | fchmod | fsync | openDir | fsyncDir | closeDir => exact stray_of_plain hp
  | write | flush | close => exact stray_of_passOn hp
  | replace src dst =>
    cases he : s.1.disk.entries src with
    | none =>
      obtain ⟨w, l⟩ := s
      have he' : w.disk.entries src = none := he
      simp only [respond, he'] at hp
      cases c with
      | ok => cases hp; rfl
      | fail done => cases done <;> cases hp; rfl
      | _ => cases hp
    | some k =>
      rcases next_replace he hnext with ⟨-, rfl⟩ | ⟨-, rfl | rfl⟩
      · exact note_stray _ _ _
      · exact note_stray _ _ _
      · rfl
  | unlink path =>
    rcases next_unlink hnext with ⟨-, ⟨-, rfl⟩ | ⟨-, rfl⟩⟩ | ⟨⟨k, hk⟩, ⟨-, rfl⟩ | ⟨-, hs⟩⟩
    · exact note_stray _ _ _
    · rfl
    · exact note_stray _ _ _
    · obtain ⟨w, l⟩ := s
      have hk' : w.disk.entries path = some k := hk
      simp only [respond, hk'] at hp
      cases c with
      | ok => cases hp; exact note_stray _ _ _
      | fail done =>
        have hdone : done = true := by simpa [hk'] using htidy
        subst hdone
        cases hp
        exact note_stray _ _ _
      | _ => cases hp
  | openRead path =>
    obtain ⟨w, l⟩ := s
    simp only [respond] at hp
    cases he : w.disk.entries path <;> rw [he] at hp <;> cases c <;> cases hp <;> simp [opened, saw]
  | fdopen | readAll | closeRead => cases c <;> cases hp <;> rfl

/-- As long as no process is killed, the power stays, and temporary files can be made and removed:
when nothing is running, the temporary files are those that were there at first. -/
theorem no_litter {c : Procs asked} (hw : Settled w₀)
    (h : (system asked).Reachable Tidy False (booted asked w₀) c) (hq : System.Quiet c) :
    ∀ t, isTemp t = true → c.shared.disk.entries t ≠ none → t ∈ w₀.stray := by
  have hrun : Run asked (booted asked w₀) c ∧ c.shared.stray = w₀.stray := by
    clear hq
    induction h with
    | refl => exact ⟨.refl, rfl⟩
    | tail _ hs ih =>
      obtain ⟨i, hs⟩ := hs
      obtain ⟨hrun, hstray⟩ := ih
      cases hs with
      | start op hn => exact ⟨hrun.tail (.step (System.Step.start op hn)), hstray⟩
      | act hr hn =>
        obtain ⟨ch, htidy, hp⟩ := hn
        exact ⟨hrun.tail (.step (.act hr ⟨ch, (Bool.and_eq_true_iff.1 htidy).1, hp⟩)),
          (stray_of_next ⟨ch, htidy, hp⟩).trans hstray⟩
      | finish hr => exact ⟨hrun.tail (.step (.finish hr)), hstray⟩
      | stop hf => exact hf.elim
  intro t ht he
  have hreached : Reached asked w₀ c := ⟨hw, hrun.1⟩
  have hgood := good_of_reached hreached
  rcases hgood.global.1.owned t ht he with hs | ⟨j, i, hj⟩
  · exact hrun.2 ▸ hs
  · have hidle := hgood.sound j
    rw [hq j] at hidle
    exact absurd (hj.symm.trans hidle) (Option.some_ne_none _)

/-- The write fails at `fsync`, and its handler removes the temporary file. -/
def failing : List (Nat × System.Turn { op // anyOp op } Choice) :=
  turnsOf 0 sampleWrite [.name "aaaaaaaa" false, .ok, .ok, .took 1 false, .took 1 false,
    .fail false, .took 0 false, .ok] ++ [(0, .finish)]

theorem failing_runs :
    (∀ x ∈ failing, x.1 ∈ [0]) ∧
      (((system anyOp).run tidy failing (booted anyOp emptyDisk)).map fun c =>
      (c.running 0).isNone) = some true := by decide +kernel

theorem no_litter_failing :
    ∃ c : Procs anyOp, ∀ t, isTemp t = true → c.shared.disk.entries t ≠ none →
      t ∈ emptyDisk.stray := by
  obtain ⟨hts, hrun⟩ := failing_runs
  obtain ⟨c, hc, hnone⟩ := Option.map_eq_some_iff.1 hrun
  have hq : System.Quiet c := System.quiet_of_run hc (fun _ => rfl) hts (by simpa using hnone)
  exact ⟨c, no_litter settled_emptyDisk (System.reachable_of_run hc) hq⟩

end Storage
end WebProxyPanel
