import WebProxyPanel.StorageTold
/-!
# The programs keep their guard

`Has` is what a writer knows of its temporary file between two calls; `Over` and `Post` are what it
leaves behind. All are things that the others cannot take away.
-/

namespace WebProxyPanel
namespace Storage
open Effects Files

/-! ## What an operation leaves behind -/

/-- The events that may stand for an operation in the log. -/
def FileOp.Answers : FileOp → Event → Prop
  | .writeFile path data mode, .put p v => p = path.1 ∧ v = some ⟨data, mode⟩
  | .removeFile path, .put p v => p = path.1 ∧ v = none
  | .removeFile path, .saw p v => p = path.1 ∧ v = none
  | .readFile path, .saw p _ => p = path.1
  | _, _ => False

/-- The event is in the log, after what was there at first. -/
def Logged (e : Event) (log₀ : List Event) (w : Shared) : Prop :=
  ∃ new old, w.log = new ++ e :: old ∧ log₀ <:+ old

/-- What the path may hold after a loss of power is the file, or has been put there since. -/
def Stored (p : String) (f : File) (log₀ : List Event) (w : Shared) : Prop :=
  ∃ new old, w.log = new ++ .put p (some f) :: old ∧ log₀ <:+ old ∧ ∀ u ∈ w.disk.may p, u = some f ∨
    .put p u ∈ new

/-- The same of what the path holds. -/
def Shown (p : String) (f : File) (log₀ : List Event) (w : Shared) : Prop :=
  ∃ new old, w.log = new ++ .put p (some f) :: old ∧ log₀ <:+ old ∧
    (w.disk.read p = some f ∨ .put p (w.disk.read p) ∈ new)

theorem Logged.since {e : Event} {log₀ : List Event} {w w' : Shared} (h : Logged e log₀ w)
    (hs : Since w w') : Logged e log₀ w' := by
  obtain ⟨new, old, hl, hold⟩ := h
  obtain ⟨new', hl', -⟩ := hs
  exact ⟨new' ++ new, old, by rw [hl', hl, List.append_assoc], hold⟩

theorem Stored.since {p : String} {f : File} {log₀ : List Event} {w w' : Shared}
    (h : Stored p f log₀ w) (hp : isTemp p = false) (hs : Since w w') : Stored p f log₀ w' := by
  obtain ⟨new, old, hl, hold, hmay⟩ := h
  obtain ⟨new', hl', hnew⟩ := hs
  refine ⟨new' ++ new, old, by rw [hl', hl, List.append_assoc], hold, fun u hu => ?_⟩
  rcases (hnew p hp).1 u hu with hu | hu
  · exact (hmay u hu).imp id (List.mem_append_right _)
  · exact Or.inr (List.mem_append_left _ hu)

theorem Shown.since {p : String} {f : File} {log₀ : List Event} {w w' : Shared}
    (h : Shown p f log₀ w) (hp : isTemp p = false) (hs : Since w w') : Shown p f log₀ w' := by
  obtain ⟨new, old, hl, hold, hread⟩ := h
  obtain ⟨new', hl', hnew⟩ := hs
  refine ⟨new' ++ new, old, by rw [hl', hl, List.append_assoc], hold, ?_⟩
  rcases (hnew p hp).2 with he | hu
  · rw [he]
    exact hread.imp id (List.mem_append_right _)
  · exact Or.inr (List.mem_append_left _ hu)

theorem suffix_since {log₀ : List Event} {w w' : Shared} (h : log₀ <:+ w.log) (hs : Since w w') :
    log₀ <:+ w'.log := by
  obtain ⟨new, hl, -⟩ := hs
  rw [hl]
  exact h.trans (List.suffix_append _ _)

/-- What holds when an operation has ended, if the log was `log₀` and the process's part of it
`events₀` when it began. -/
structure Post (op : FileOp) (log₀ events₀ : List Event) (out : Except Exn Unit) (w : Shared)
    (l : Own) : Prop where
  temp : l.temp = none
  events : (l.events = events₀ ∧ ∃ e, out = .error e) ∨ ∃ e, op.Answers e ∧ Logged e log₀ w ∧
    l.events = e :: events₀
  stored : ∀ path data mode, op = .writeFile path data mode → out = .ok () →
    Stored path.1 ⟨data, mode⟩ log₀ w
  got : ∀ path, op = .readFile path → out = .ok () → ∀ p f, l.events = .saw p (some f) :: events₀ →
    l.got = some (p, f.data)

/-- Between two operations. -/
def Idle (_ : Shared) (l : Own) : Prop := l.temp = none

theorem Mine.rely {t : String} {i : Nat} {w w' : Shared} {l : Own} (h : Mine t i w l)
    (hr : Rely l w w') : Mine t i w' l :=
  ⟨h.own, h.temp, hr.drawn h.drawn, (hr.temp t i h.own).1.trans h.entry⟩

theorem Gone.rely {t : String} {w w' : Shared} {l : Own} (h : Gone t w l) (hr : Rely l w w') :
    Gone t w' l :=
  ⟨h.own, h.temp, hr.drawn h.drawn, hr.gone t h.drawn h.temp h.entry⟩

theorem stable_post (op : FileOp) (log₀ events₀ : List Event) :
    StableQ Rely (Post op log₀ events₀) := by
  rintro out w l w₁ hr h
  refine ⟨h.temp, h.events.imp id ?_, fun path data mode hop hout => ?_, h.got⟩
  · rintro ⟨e, ha, hl, he⟩
    exact ⟨e, ha, hl.since hr.since, he⟩
  · exact (h.stored path data mode hop hout).since path.2 hr.since

/-! ## Writing -/

section Write
variable {path : RealPath} {data : List UInt8} {mode : Nat} {log₀ events₀ : List Event} {t : String}
  {i : Nat}

/-- What a writer knows of its temporary file and of its buffer. -/
structure Has (log₀ events₀ : List Event) (t : String) (i : Nat) (φ : Inode → List UInt8 → Prop)
    (w : Shared) (l : Own) : Prop where
  mine : Mine t i w l
  events : l.events = events₀
  log : log₀ <:+ w.log
  file : φ (w.disk.inodes i) l.buffer

/-- The writer has put its file in place. -/
structure Placed (path : RealPath) (f : File) (log₀ events₀ : List Event) (t : String) (w : Shared)
    (l : Own) : Prop where
  gone : Gone t w l
  events : l.events = .put path.1 (some f) :: events₀
  shown : Shown path.1 f log₀ w

/-- The writer has given up, before or after it has put its file in place. -/
structure Over (path : RealPath) (f : File) (log₀ events₀ : List Event) (w : Shared) (l : Own) :
    Prop where
  temp : l.temp = none
  events : l.events = events₀ ∨
    (Logged (.put path.1 (some f)) log₀ w ∧ l.events = .put path.1 (some f) :: events₀)

theorem Has.rely {φ : Inode → List UInt8 → Prop} {w w' : Shared} {l : Own}
    (h : Has log₀ events₀ t i φ w l) (hr : Rely l w w') : Has log₀ events₀ t i φ w' l := by
  refine ⟨h.mine.rely hr, h.events, suffix_since h.log hr.since, ?_⟩
  rw [(hr.temp t i h.mine.own).2]
  exact h.file

theorem Has.imp {φ ψ : Inode → List UInt8 → Prop} {w : Shared} {l : Own}
    (h : Has log₀ events₀ t i φ w l) (hi : ∀ n b, φ n b → ψ n b) :
    Has log₀ events₀ t i ψ w l := ⟨h.mine, h.events, h.log, hi _ _ h.file⟩

theorem Placed.rely {f : File} {w w' : Shared} {l : Own} (h : Placed path f log₀ events₀ t w l)
    (hr : Rely l w w') :
    Placed path f log₀ events₀ t w' l := ⟨h.gone.rely hr, h.events, h.shown.since path.2 hr.since⟩

theorem Over.rely {f : File} {w w' : Shared} {l : Own} (h : Over path f log₀ events₀ w l)
    (hr : Rely l w w') :
    Over path f log₀ events₀ w' l := ⟨h.temp, h.events.imp id fun h' => ⟨h'.1.since hr.since, h'.2⟩⟩

theorem Placed.over {f : File} {w : Shared} {l : Own} (h : Placed path f log₀ events₀ t w l) :
    Over path f log₀ events₀ w l := by
  obtain ⟨new, old, hl, hold, -⟩ := h.shown
  exact ⟨h.gone.own, Or.inr ⟨⟨new, old, hl, hold⟩, h.events⟩⟩

/-- The temporary file, whatever is in it. -/
abbrev HasAny (log₀ events₀ : List Event) (t : String) (i : Nat) :=
  Has log₀ events₀ t i fun _ _ => True

/-- A call on the temporary file. -/
theorem safe_fileCall {op : FileOp} {φ ψ : Inode → List UInt8 → Prop} (a : Act Unit)
    (hg : ∀ w l, Mine t i w l → guard op w l a)
    (ha : ∀ w l r s', Has log₀ events₀ t i φ w l → sem.Next Fresh (w, l) a r s' → s'.1.log = w.log ∧
      s'.1.drawn = w.drawn ∧ s'.1.disk.entries = w.disk.entries ∧ s'.2.temp = l.temp ∧
        s'.2.events = l.events ∧ (r = .ok () → ψ (s'.1.disk.inodes i) s'.2.buffer))
    {w : Shared} {l : Own} (h : Has log₀ events₀ t i φ w l) :
    Safe sem Fresh Rely (guard op) (post (fun _ => Has log₀ events₀ t i ψ) fun _ =>
      HasAny log₀ events₀ t i) (.call a) w l := by
  refine Safe.callStable (StableQ.post (fun _ _ _ _ hr h => h.rely hr) fun _ _ _ _ hr h =>
    h.rely hr) fun w₁ hr => ?_
  have h₁ := h.rely hr
  refine ⟨hg w₁ l h₁.mine, fun r w₂ l₂ hn => ?_⟩
  obtain ⟨hlog, hdrawn, hentries, htemp, hevents, hfile⟩ := ha w₁ l r (w₂, l₂) h₁ hn
  have hmine : Mine t i w₂ l₂ :=
    ⟨htemp.trans h₁.mine.own, h₁.mine.temp, hdrawn ▸ h₁.mine.drawn,
      (congrFun hentries t).trans h₁.mine.entry⟩
  have hlog₂ : log₀ <:+ w₂.log := by
    rw [show w₂.log = w₁.log from hlog]
    exact h₁.log
  cases r with
  | ok a => exact ⟨hmine, hevents.trans h₁.events, hlog₂, hfile rfl⟩
  | error e => exact ⟨hmine, hevents.trans h₁.events, hlog₂, trivial⟩

/-- Calls that change the disk alone. -/
theorem next_plain {a : Act Unit} {f : Disk String → Disk String}
    (ha : ∀ c s, respond c a s = plain c f s) {s s' : State} {r : Except Exn Unit}
    (hn : sem.Next Fresh s a r s') :
    s'.2 = s.2 ∧ s'.1.log = s.1.log ∧ s'.1.drawn = s.1.drawn ∧
      ((r = .ok () ∧ s'.1.disk = f s.1.disk) ∨
        (r = .error .other ∧ (s'.1.disk = f s.1.disk ∨ s'.1.disk = s.1.disk))) := by
  obtain ⟨c, -, hp⟩ := hn
  change respond c a s = _ at hp
  rw [ha] at hp
  unfold plain at hp
  split at hp
  · cases hp
    exact ⟨rfl, rfl, rfl, Or.inl ⟨rfl, rfl⟩⟩
  · rename_i done
    cases hp
    cases done
    · exact ⟨rfl, rfl, rfl, Or.inr ⟨rfl, Or.inr rfl⟩⟩
    · exact ⟨rfl, rfl, rfl, Or.inr ⟨rfl, Or.inl rfl⟩⟩
  · cases hp

/-- Calls that pass bytes on. -/
theorem next_passOn {a : Act Unit} {fd : Nat} {all : Bool} (waiting : State → List UInt8)
    (ha : ∀ c s, respond c a s = passOn c fd (waiting s) all s) {s s' : State} {r : Except Exn Unit}
    (hn : sem.Next Fresh s a r s') :
    ∃ n, s' = pass fd n (waiting s) s ∧ (r = .ok () → all = true → (waiting s).length ≤ n) := by
  obtain ⟨c, -, hp⟩ := hn
  change respond c a s = _ at hp
  rw [ha] at hp
  unfold passOn at hp
  split at hp
  · rename_i n raises
    split at hp
    · cases hp
    · rename_i hall
      cases hp
      refine ⟨n, rfl, fun hr htrue => ?_⟩
      cases raises
      · simpa [htrue] using hall
      · cases hr
  · cases hp

/-- The stages of `putInPlace`: empty with the mode, waiting in file and buffer, written out, and
synced. -/
def Empty (n : Inode) (_ : List UInt8) : Prop := n.file.data = []
def EmptyWith (mode : Nat) (n : Inode) (_ : List UInt8) : Prop := n.file = ⟨[], mode⟩
def Waiting (pre : List UInt8) (mode : Nat) (n : Inode) (b : List UInt8) : Prop :=
  n.file.data ++ b = pre ∧ n.file.mode = mode
def Written (data : List UInt8) (mode : Nat) (n : Inode) (b : List UInt8) : Prop :=
  n.file = ⟨data, mode⟩ ∧ b = []
def Synced (data : List UInt8) (mode : Nat) (n : Inode) (b : List UInt8) : Prop :=
  n = ⟨⟨data, mode⟩, true⟩ ∧ b = []

section Calls
variable {op : FileOp} {w : Shared} {l : Own}

theorem safe_fchmod (h : Has log₀ events₀ t i Empty w l) :
    Safe sem Fresh Rely (guard op) (post (fun _ => Has log₀ events₀ t i (EmptyWith mode)) fun _ =>
      HasAny log₀ events₀ t i)
      (.call (.fchmod i mode)) w l := by
  refine safe_fileCall (.fchmod i mode) (fun _ _ hm => ⟨t, hm⟩) (fun w l r s' h hn => ?_) h
  obtain ⟨hown, hlog, hdrawn, hdisk⟩ := next_plain (fun _ _ => rfl) hn
  have hentries : s'.1.disk.entries = w.disk.entries := by
    rcases hdisk with ⟨-, hd⟩ | ⟨-, hd | hd⟩ <;> rw [hd] <;> rfl
  refine ⟨hlog, hdrawn, hentries, congrArg Own.temp hown, congrArg Own.events hown, ?_⟩
  rintro rfl
  rcases hdisk with ⟨-, hd⟩ | ⟨he, -⟩
  · rw [hd]
    have hempty : (w.disk.inodes i).file.data = [] := h.file
    simp [EmptyWith, Disk.chmod, hempty]
  · cases he

theorem safe_fdopen (h : Has log₀ events₀ t i (EmptyWith mode) w l) :
    Safe sem Fresh Rely (guard op) (post (fun _ => Has log₀ events₀ t i (Waiting [] mode)) fun _ =>
      HasAny log₀ events₀ t i)
      (.call (.fdopen i)) w l := by
  refine safe_fileCall (.fdopen i) (fun _ _ _ => trivial) (fun w l r s' h hn => ?_) h
  obtain ⟨c, -, hp⟩ := hn
  cases c with
  | ok =>
    cases hp
    refine ⟨rfl, rfl, rfl, rfl, rfl, fun _ => ?_⟩
    have hfile : (w.disk.inodes i).file = ⟨[], mode⟩ := h.file
    simp [Waiting, hfile]
  | fail done =>
    cases hp
    exact ⟨rfl, rfl, rfl, rfl, rfl, fun hr => nomatch hr⟩
  | _ => cases hp

/-- What passing on does to the file and to the buffer. -/
theorem pass_spec (n : Nat) (waiting : List UInt8) (s : State) :
    ((pass i n waiting s).1.disk.inodes i).file =
      ⟨(s.1.disk.inodes i).file.data ++ waiting.take n, (s.1.disk.inodes i).file.mode⟩ ∧
      (pass i n waiting s).2.buffer = waiting.drop n ∧ (pass i n waiting s).1.disk.entries =
        s.1.disk.entries :=
  ⟨Disk.append_file _, rfl, (Disk.append_entries _).1⟩

theorem safe_write (h : Has log₀ events₀ t i (Waiting [] mode) w l) :
    Safe sem Fresh Rely (guard op)
      (post (fun _ => Has log₀ events₀ t i (Waiting data mode)) fun _ => HasAny log₀ events₀ t i)
      (.call (.write i data)) w l := by
  refine safe_fileCall (.write i data) (fun _ _ hm => ⟨t, hm⟩) (fun w l r s' h hn => ?_) h
  obtain ⟨n, rfl, -⟩ := next_passOn (fun s => s.2.buffer ++ data) (fun _ _ => rfl) hn
  obtain ⟨hfile, hbuffer, hentries⟩ := pass_spec (i := i) n (l.buffer ++ data) (w, l)
  refine ⟨rfl, rfl, hentries, rfl, rfl, fun _ => ?_⟩
  obtain ⟨hwait, hmode⟩ := h.file
  rw [Waiting, hfile, hbuffer]
  refine ⟨?_, hmode⟩
  rw [List.append_assoc, List.take_append_drop, ← List.append_assoc]
  exact (congrArg (· ++ data) hwait).trans (List.nil_append data)

/-- Everything that waits goes to the file. -/
theorem file_of_pass {s : State} {n : Nat} (h : Waiting data mode (s.1.disk.inodes i) s.2.buffer)
    (hn : s.2.buffer.length ≤ n) :
    Written data mode ((pass i n s.2.buffer s).1.disk.inodes i)
      (pass i n s.2.buffer s).2.buffer := by
  obtain ⟨hfile, hbuffer, -⟩ := pass_spec (i := i) n s.2.buffer s
  obtain ⟨hwait, hmode⟩ := h
  refine ⟨?_, ?_⟩
  · rw [hfile, List.take_of_length_le hn, hwait, hmode]
  · rw [hbuffer, List.drop_of_length_le hn]

theorem safe_flush (h : Has log₀ events₀ t i (Waiting data mode) w l) :
    Safe sem Fresh Rely (guard op)
      (post (fun _ => Has log₀ events₀ t i (Written data mode)) fun _ => HasAny log₀ events₀ t i)
      (.call (.flush i)) w l := by
  refine safe_fileCall (.flush i) (fun _ _ hm => ⟨t, hm⟩) (fun w l r s' h hn => ?_) h
  obtain ⟨n, rfl, hall⟩ := next_passOn (fun s => s.2.buffer) (fun _ _ => rfl) hn
  exact ⟨rfl, rfl, (pass_spec (i := i) n l.buffer (w, l)).2.2, rfl, rfl, fun hr =>
    file_of_pass (s := (w, l)) h.file (hall hr rfl)⟩

theorem safe_fsync (h : Has log₀ events₀ t i (Written data mode) w l) :
    Safe sem Fresh Rely (guard op) (post (fun _ => Has log₀ events₀ t i (Synced data mode)) fun _ =>
      HasAny log₀ events₀ t i)
      (.call (.fsync i)) w l := by
  refine safe_fileCall (.fsync i) (fun _ _ hm => ⟨t, hm⟩) (fun w l r s' h hn => ?_) h
  obtain ⟨hown, hlog, hdrawn, hdisk⟩ := next_plain (fun _ _ => rfl) hn
  have hentries : s'.1.disk.entries = w.disk.entries := by
    rcases hdisk with ⟨-, hd⟩ | ⟨-, hd | hd⟩ <;> rw [hd] <;> rfl
  refine ⟨hlog, hdrawn, hentries, congrArg Own.temp hown, congrArg Own.events hown, ?_⟩
  rintro rfl
  rcases hdisk with ⟨-, hd⟩ | ⟨he, -⟩
  · obtain ⟨hfile, hbuffer⟩ := h.file
    refine ⟨?_, (congrArg Own.buffer hown).trans hbuffer⟩
    rw [hd, Disk.sync, Disk.setInode_self, hfile]
  · cases he

/-- The handle is closed after everything was synced: nothing is left to pass on. -/
theorem safe_close (h : Has log₀ events₀ t i (Synced data mode) w l) :
    Safe sem Fresh Rely (guard op) (post (fun _ => Has log₀ events₀ t i (Synced data mode)) fun _ =>
      HasAny log₀ events₀ t i)
      (.call (.close i)) w l := by
  refine safe_fileCall (.close i) (fun _ _ hm => ⟨t, hm⟩) (fun w l r s' h hn => ?_) h
  obtain ⟨n, rfl, -⟩ := next_passOn (fun s => s.2.buffer) (fun _ _ => rfl) hn
  refine ⟨rfl, rfl, (pass_spec (i := i) n l.buffer (w, l)).2.2, rfl, rfl, fun _ => ?_⟩
  obtain ⟨hnode, hbuffer⟩ := h.file
  have hsame : pass i n l.buffer (w, l) = (w, l) := by
    have hb : l.buffer = [] := hbuffer
    rw [pass, hb, List.take_nil, List.drop_nil, Disk.append, if_pos rfl, ← hb]
  rw [hsame]
  exact ⟨hnode, hbuffer⟩

theorem safe_closeAny (h : HasAny log₀ events₀ t i w l) :
    Safe sem Fresh Rely (guard op) (post (fun _ => HasAny log₀ events₀ t i) fun _ =>
      HasAny log₀ events₀ t i) (.call (.close i)) w l := by
  refine safe_fileCall (.close i) (fun _ _ hm => ⟨t, hm⟩) (fun w l r s' h hn => ?_) h
  obtain ⟨n, rfl, -⟩ := next_passOn (fun s => s.2.buffer) (fun _ _ => rfl) hn
  exact ⟨rfl, rfl, (pass_spec (i := i) n l.buffer (w, l)).2.2, rfl, rfl, fun _ => trivial⟩

end Calls

theorem stable_has {φ ψ : Inode → List UInt8 → Prop} :
    StableQ (α := Unit) (ε := Exn) Rely (post (fun _ => Has log₀ events₀ t i φ) fun _ =>
      Has log₀ events₀ t i ψ) :=
  StableQ.post (fun _ _ _ _ hr h => h.rely hr) fun _ _ _ _ hr h => h.rely hr

theorem safe_fill {op : FileOp} {w : Shared} {l : Own}
    (h : Has log₀ events₀ t i (Waiting [] mode) w l) :
    Safe sem Fresh Rely (guard op) (post (fun _ => Has log₀ events₀ t i (Synced data mode)) fun _ =>
      HasAny log₀ events₀ t i)
      (fill i data) w l := by
  refine Safe.tryFinally isRely stable_has (K := fun _ => Has log₀ events₀ t i (Synced data mode))
    (E := fun _ => HasAny log₀ events₀ t i)
    (fun _ _ _ _ hr h => h.rely hr) (fun _ _ _ _ hr h => h.rely hr) ?_ (fun _ w l h => safe_close h)
    fun _ w l h => safe_closeAny h
  refine Safe.seq isRely (safe_write h) fun _ w l h => ?_
  exact Safe.seq isRely (safe_flush h) fun _ w l h => safe_fsync h

/-! ### Putting the file in place -/

theorem of_state {K : Shared → Own → Prop} {w : Shared} {l : Own} {s : State} (h : (w, l) = s)
    (hk : K s.1 s.2) : K w l := by
  rw [← h] at hk
  exact hk

theorem next_replace {src dst : String} {k : Nat} {s s' : State} {r : Except Exn Unit}
    (he : s.1.disk.entries src = some k) (hn : sem.Next Fresh s (.replace src dst) r s') :
    (r = .ok () ∧ s' = replaced src dst s) ∨
      (r = .error .other ∧ (s' = replaced src dst s ∨ s' = s)) := by
  obtain ⟨c, -, hp⟩ := hn
  change respond c (.replace src dst) s = _ at hp
  obtain ⟨w, l⟩ := s
  have he' : w.disk.entries src = some k := he
  simp only [respond, he'] at hp
  cases c with
  | ok =>
    rw [Option.some.injEq, Prod.mk.injEq] at hp
    exact Or.inl ⟨hp.1.symm, hp.2.symm⟩
  | fail done =>
    cases done <;> rw [Option.some.injEq, Prod.mk.injEq] at hp
    · exact Or.inr ⟨hp.1.symm, Or.inr hp.2.symm⟩
    · exact Or.inr ⟨hp.1.symm, Or.inl hp.2.symm⟩
  | _ => cases hp

theorem placed_of_replaced {w : Shared} {l : Own}
    (h : Has log₀ events₀ t i (Synced data mode) w l) :
    Placed path ⟨data, mode⟩ log₀ events₀ t (replaced t path.1 (w, l)).1
      (replaced t path.1 (w, l)).2 := by
  have hne : t ≠ path.1 := (ne_of_isTemp h.mine.temp path.2).symm
  have hread : w.disk.read t = some ⟨data, mode⟩ := by
    rw [Disk.read, h.mine.entry, Option.map_some, h.file.1]
  refine ⟨⟨?_, h.mine.temp, ?_, ?_⟩, ?_, [], w.log, ?_, h.log, Or.inl ?_⟩
  · simp [replaced, Own.forget_own h.mine.own]
  · simpa [replaced] using h.mine.drawn
  · rw [replaced, note_disk]
    exact Disk.rename_entries_src hne
  · rw [replaced, note_real _ _ path.2]
    change Event.put path.1 (w.disk.read t) :: l.events = _
    rw [hread, h.events]
  · rw [replaced, note_real _ _ path.2]
    change Event.put path.1 (w.disk.read t) :: w.log = _
    rw [hread]
    rfl
  · rw [replaced, note_disk, ← hread]
    exact List.head_eq_of_cons_eq (Disk.may_rename hne)

/-- The handler may be entered with the file in place or not. -/
abbrev Either (path : RealPath) (f : File) (log₀ events₀ : List Event) (t : String) (i : Nat)
    (w : Shared) (l : Own) : Prop :=
  HasAny log₀ events₀ t i w l ∨ Placed path f log₀ events₀ t w l

theorem Either.rely {f : File} {w w' : Shared} {l : Own} (h : Either path f log₀ events₀ t i w l)
    (hr : Rely l w w') :
    Either path f log₀ events₀ t i w' l := h.imp (fun h => h.rely hr) fun h => h.rely hr

theorem safe_replace {w : Shared} {l : Own} (h : Has log₀ events₀ t i (Synced data mode) w l) :
    Safe sem Fresh Rely (guard (.writeFile path data mode))
      (post (fun _ => Placed path ⟨data, mode⟩ log₀ events₀ t) fun _ =>
        Either path ⟨data, mode⟩ log₀ events₀ t i)
      (.call (.replace t path.1)) w l := by
  refine Safe.callStable (StableQ.post (fun _ _ _ _ hr h => h.rely hr) fun _ _ _ _ hr h =>
    h.rely hr) fun w₁ hr => ?_
  have h₁ := h.rely hr
  refine ⟨⟨i, path, data, mode, rfl, rfl, h₁.mine, h₁.file.1⟩, fun r w₂ l₂ hn => ?_⟩
  rcases next_replace h₁.mine.entry hn with ⟨rfl, hs⟩ | ⟨rfl, hs | hs⟩
  · exact of_state (K := Placed path ⟨data, mode⟩ log₀ events₀ t) hs (placed_of_replaced h₁)
  · exact Or.inr (of_state (K := Placed path ⟨data, mode⟩ log₀ events₀ t) hs
      (placed_of_replaced h₁))
  · cases hs
    exact Or.inl (h₁.imp fun _ _ _ => trivial)

theorem safe_putInPlace {w : Shared} {l : Own} (h : Has log₀ events₀ t i Empty w l) :
    Safe sem Fresh Rely (guard (.writeFile path data mode))
      (post (fun _ => Placed path ⟨data, mode⟩ log₀ events₀ t) fun _ =>
        Either path ⟨data, mode⟩ log₀ events₀ t i)
      (putInPlace i t path.1 data mode) w l := by
  -- an exception before `os.replace` leaves the temporary file
  have hearly : ∀ {γ : Type} {K : γ → Shared → Own → Prop} {out : Except Exn γ}
      {w : Shared} {l : Own}, post K (fun _ => HasAny log₀ events₀ t i) out w l →
        post K (fun _ => Either path ⟨data, mode⟩ log₀ events₀ t i) out w l := by
    rintro γ K (e | a) w l h
    · exact Or.inl h
    · exact h
  refine Safe.seq isRely ((safe_fchmod h).mono fun _ _ _ => hearly) fun _ w l h => ?_
  refine Safe.seq isRely ((safe_fdopen h).mono fun _ _ _ => hearly) fun _ w l h => ?_
  exact Safe.seq isRely ((safe_fill h).mono fun _ _ _ => hearly) fun _ w l h => safe_replace h

/-! ### The handler -/

theorem next_unlink {p : String} {s s' : State} {r : Except Exn Unit}
    (hn : sem.Next Fresh s (.unlink p) r s') :
    (s.1.disk.entries p = none ∧
      (r = .error .notFound ∧ s' = saw p s ∨ r = .error .other ∧ s' = s)) ∨
      ((∃ k, s.1.disk.entries p = some k) ∧ (r = .ok () ∧ s' = unlinked p s ∨
        r = .error .other ∧ (s' = unlinked p s ∨ s' = leave p s))) := by
  obtain ⟨c, -, hp⟩ := hn
  change respond c (.unlink p) s = _ at hp
  obtain ⟨w, l⟩ := s
  simp only [respond] at hp
  cases he : w.disk.entries p with
  | none =>
    rw [he] at hp
    refine Or.inl ⟨rfl, ?_⟩
    cases c with
    | ok =>
      rw [Option.some.injEq, Prod.mk.injEq] at hp
      exact Or.inl ⟨hp.1.symm, hp.2.symm⟩
    | fail done =>
      cases done
      · rw [Option.some.injEq, Prod.mk.injEq] at hp
        exact Or.inr ⟨hp.1.symm, hp.2.symm⟩
      · cases hp
    | _ => cases hp
  | some k =>
    rw [he] at hp
    refine Or.inr ⟨⟨k, rfl⟩, ?_⟩
    cases c with
    | ok =>
      rw [Option.some.injEq, Prod.mk.injEq] at hp
      exact Or.inl ⟨hp.1.symm, hp.2.symm⟩
    | fail done =>
      cases done <;> rw [Option.some.injEq, Prod.mk.injEq] at hp
      · exact Or.inr ⟨hp.1.symm, Or.inr hp.2.symm⟩
      · exact Or.inr ⟨hp.1.symm, Or.inl hp.2.symm⟩
    | _ => cases hp

theorem over_of_unlinked {f : File} {w : Shared} {l : Own} (h : HasAny log₀ events₀ t i w l) :
    Over path f log₀ events₀ (unlinked t (w, l)).1 (unlinked t (w, l)).2 := by
  rw [unlinked, note_temp _ _ h.mine.temp]
  exact ⟨Own.forget_own h.mine.own, Or.inl h.events⟩

theorem over_of_leave {f : File} {w : Shared} {l : Own} (h : HasAny log₀ events₀ t i w l) :
    Over path f log₀ events₀ (leave t (w, l)).1 (leave t (w, l)).2 :=
  ⟨Own.forget_own h.mine.own, Or.inl h.events⟩

theorem safe_discard {op : FileOp} {f : File} {e : Exn} {w : Shared} {l : Own}
    (h : Either path f log₀ events₀ t i w l) :
    Safe sem Fresh Rely (guard op) (post (fun _ _ _ => False) fun _ => Over path f log₀ events₀)
      (discard t e) w l := by
  have hstable : StableQ (α := Unit) (ε := Exn) Rely
      (post (fun _ => Over path f log₀ events₀) fun _ => Over path f log₀ events₀) :=
    StableQ.post (fun _ _ _ _ hr h => h.rely hr) fun _ _ _ _ hr h => h.rely hr
  refine Safe.seq isRely (K := fun _ => Over path f log₀ events₀) ?_ fun _ w l h =>
    Safe.raise fun w₁ hr => h.rely hr
  refine Safe.handle isRely (E := fun _ => Over path f log₀ events₀) ?_ fun e' w l h => ?_
  · refine Safe.callStable hstable fun w₁ hr => ?_
    have h₁ := Either.rely h hr
    refine ⟨?_, fun r w₂ l₂ hn => ?_⟩
    · exact h₁.elim (fun h => Or.inl ⟨i, h.mine⟩) fun h => Or.inr (Or.inl h.gone)
    · suffices hover : Over path f log₀ events₀ w₂ l₂ by cases r <;> exact hover
      rcases next_unlink hn with ⟨he, ⟨-, hs⟩ | ⟨-, hs⟩⟩ | ⟨⟨k, he⟩, ⟨-, hs⟩ | ⟨-, hs | hs⟩⟩ <;>
          rcases h₁ with h₁ | h₁
      · exact absurd (h₁.mine.entry.symm.trans he) (by simp)
      · rw [saw, note_temp _ _ h₁.gone.temp] at hs
        cases hs
        exact h₁.over
      · exact absurd (h₁.mine.entry.symm.trans he) (by simp)
      · cases hs
        exact h₁.over
      · exact of_state hs (over_of_unlinked h₁)
      · exact absurd (h₁.gone.entry.symm.trans he) (by simp)
      · exact of_state hs (over_of_unlinked h₁)
      · exact absurd (h₁.gone.entry.symm.trans he) (by simp)
      · exact of_state hs (over_of_leave h₁)
      · exact absurd (h₁.gone.entry.symm.trans he) (by simp)
  · split
    · exact Safe.ret fun w₁ hr => h.rely hr
    · exact Safe.raise fun w₁ hr => h.rely hr

/-! ### The directory -/

/-- The writer's file will still be there after a loss of power. -/
structure Safely (path : RealPath) (f : File) (log₀ events₀ : List Event) (w : Shared) (l : Own) :
    Prop where
  temp : l.temp = none
  events : l.events = .put path.1 (some f) :: events₀
  stored : Stored path.1 f log₀ w

theorem Safely.rely {f : File} {w w' : Shared} {l : Own} (h : Safely path f log₀ events₀ w l)
    (hr : Rely l w w') :
    Safely path f log₀ events₀ w' l := ⟨h.temp, h.events, h.stored.since path.2 hr.since⟩

theorem Safely.over {f : File} {w : Shared} {l : Own} (h : Safely path f log₀ events₀ w l) :
    Over path f log₀ events₀ w l := by
  obtain ⟨new, old, hl, hold, -⟩ := h.stored
  exact ⟨h.temp, Or.inr ⟨⟨new, old, hl, hold⟩, h.events⟩⟩

/-- A call that leaves the disk alone keeps what the others cannot take away. -/
theorem safe_idleCall (op : FileOp) {K : Shared → Own → Prop} (a : Act Unit)
    (hK : ∀ w w' l, Rely l w w' → K w l → K w' l) (hg : ∀ w l, guard op w l a)
    (ha : ∀ c s, respond c a s = plain c id s) {w : Shared} {l : Own} (h : K w l) :
    Safe sem Fresh Rely (guard op) (post (fun _ => K) fun _ => K) (.call a) w l := by
  refine Safe.callStable (StableQ.post (fun _ w l w₁ hr h => hK w w₁ l hr h) fun _ w l w₁ hr h =>
    hK w w₁ l hr h) fun w₁ hr => ?_
  refine ⟨hg w₁ l, fun r w₂ l₂ hn => ?_⟩
  obtain ⟨c, -, hp⟩ := hn
  change respond c a (w₁, l) = _ at hp
  rw [ha] at hp
  have hsame : w₂ = w₁ ∧ l₂ = l := by
    unfold plain at hp
    split at hp
    · cases hp
      exact ⟨rfl, rfl⟩
    · rename_i done
      cases hp
      cases done <;> exact ⟨rfl, rfl⟩
    · cases hp
  obtain ⟨rfl, rfl⟩ := hsame
  have hk := hK w w₂ l₂ hr h
  cases r <;> exact hk

theorem safe_fsyncDir {op : FileOp} {f : File} {w : Shared} {l : Own}
    (h : Placed path f log₀ events₀ t w l) :
    Safe sem Fresh Rely (guard op) (post (fun _ => Safely path f log₀ events₀) fun _ =>
      Over path f log₀ events₀)
      (.call (.fsyncDir (directoryOf path.1))) w l := by
  refine Safe.callStable (StableQ.post (fun _ _ _ _ hr h => h.rely hr) fun _ _ _ _ hr h =>
    h.rely hr) fun w₁ hr => ?_
  have h₁ := h.rely hr
  refine ⟨trivial, fun r w₂ l₂ hn => ?_⟩
  obtain ⟨hown, hlog, -, hdisk⟩ := next_plain (fun _ _ => rfl) hn
  obtain rfl : l₂ = l := hown
  have hlog' : w₂.log = w₁.log := hlog
  obtain ⟨new, old, hl, hold, hread⟩ := h₁.shown
  rcases hdisk with ⟨rfl, hd⟩ | ⟨rfl, -⟩
  · refine ⟨h₁.gone.own, h₁.events, new, old, hlog'.trans hl, hold, fun u hu => ?_⟩
    have hmay : w₂.disk.may path.1 = [w₁.disk.read path.1] := by
      rw [show w₂.disk = _ from hd]
      exact Disk.may_syncDir (decide_eq_true rfl)
    rw [hmay, List.mem_singleton] at hu
    exact hu ▸ hread
  · exact ⟨h₁.gone.own, Or.inr ⟨⟨new, old, hlog'.trans hl, hold⟩, h₁.events⟩⟩

theorem safe_settle {op : FileOp} {f : File} {w : Shared} {l : Own}
    (h : Placed path f log₀ events₀ t w l) :
    Safe sem Fresh Rely (guard op) (post (fun _ => Safely path f log₀ events₀) fun _ =>
      Over path f log₀ events₀)
      (settle (directoryOf path.1)) w l := by
  have hopen := safe_idleCall op (.openDir (directoryOf path.1)) (K := Placed path f log₀ events₀ t)
    (fun _ _ _ hr h => h.rely hr) (fun _ _ => trivial) (fun _ _ => rfl) h
  refine Safe.seq isRely (K := fun _ => Placed path f log₀ events₀ t)
    (hopen.mono fun out w l h => ?_) fun _ w l h => ?_
  · cases out with
    | ok => exact h
    | error => exact Placed.over h
  · refine Safe.tryFinally isRely
      (StableQ.post (fun _ _ _ _ hr h => h.rely hr) fun _ _ _ _ hr h => h.rely hr)
      (fun _ _ _ _ hr h => h.rely hr) (fun _ _ _ _ hr h => h.rely hr) (safe_fsyncDir h)
        (fun _ w l h => ?_) fun _ w l h => ?_
    · refine (safe_idleCall _ (.closeDir (directoryOf path.1)) (K := Safely path f log₀ events₀)
        (fun _ _ _ hr h => h.rely hr)
        (fun _ _ => trivial) (fun _ _ => rfl) h).mono fun out w l h => ?_
      cases out with
      | ok => exact h
      | error => exact Safely.over h
    · exact safe_idleCall _ (.closeDir (directoryOf path.1)) (K := Over path f log₀ events₀)
        (fun _ _ _ hr h => h.rely hr) (fun _ _ => trivial) (fun _ _ => rfl) h

/-! ### All of `atomic_write` -/

/-- Before an operation. -/
structure Before (log₀ events₀ : List Event) (w : Shared) (l : Own) : Prop where
  temp : l.temp = none
  events : l.events = events₀
  log : log₀ <:+ w.log

theorem Before.rely {w w' : Shared} {l : Own} (h : Before log₀ events₀ w l) (hr : Rely l w w') :
    Before log₀ events₀ w' l :=
  ⟨h.temp, h.events, suffix_since h.log hr.since⟩

theorem safe_mkstemp {op : FileOp} {directory : String} {w : Shared} {l : Own}
    (h : Before log₀ events₀ w l) :
    Safe sem Fresh Rely (guard op)
      (post (fun x => Has log₀ events₀ x.2 x.1 Empty) fun _ _ l => l.temp = none ∧
        l.events = events₀)
      (.call (.mkstemp directory)) w l := by
  refine Safe.callStable (StableQ.post (fun _ _ _ _ hr h => h.rely hr) fun _ _ _ _ _ h => h)
    fun w₁ hr => ?_
  have h₁ := h.rely hr
  refine ⟨h₁.temp, fun r w₂ l₂ hn => ?_⟩
  obtain ⟨c, -, hp⟩ := hn
  change respond c (.mkstemp directory) (w₁, l) = _ at hp
  cases c with
  | name random lost =>
    simp only [respond] at hp
    split at hp
    · cases hp
    · rename_i hvalid
      rw [not_or, not_not, not_not] at hvalid
      have htemp := isTemp_joinPath directory hvalid.1.2
      split at hp
      · cases hp
        exact ⟨Own.forget_own rfl, h₁.events⟩
      · cases hp
        refine ⟨⟨rfl, htemp, List.mem_cons_self, if_pos rfl⟩, h₁.events, h₁.log, ?_⟩
        simp [Empty, Disk.create]
  | fail done =>
    cases done
    · cases hp
      exact ⟨h₁.temp, h₁.events⟩
    · cases hp
  | _ => cases hp

theorem Over.post {op : FileOp} {f : File} {e : Exn} {w : Shared} {l : Own}
    (h : Over path f log₀ events₀ w l)
    (hop : ∃ data mode, op = .writeFile path data mode ∧ f = ⟨data, mode⟩) :
    Post op log₀ events₀ (.error e) w l := by
  obtain ⟨data, mode, rfl, rfl⟩ := hop
  refine ⟨h.temp, ?_, fun _ _ _ _ ho => (nomatch ho), fun _ ho => (nomatch ho)⟩
  rcases h.events with he | ⟨hl, he⟩
  · exact Or.inl ⟨he, e, rfl⟩
  · exact Or.inr ⟨.put path.1 (some ⟨data, mode⟩), ⟨rfl, rfl⟩, hl, he⟩

theorem safe_writeFile {w : Shared} {l : Own} (h : Before log₀ events₀ w l) :
    Safe sem Fresh Rely (guard (.writeFile path data mode))
      (Post (.writeFile path data mode) log₀ events₀)
      (writeFile path.1 data mode) w l := by
  have hover : ∀ {e : Exn} {w : Shared} {l : Own}, Over path ⟨data, mode⟩ log₀ events₀ w l →
      Post (.writeFile path data mode) log₀ events₀ (.error e) w l :=
        fun h => h.post ⟨data, mode, rfl, rfl⟩
  refine Safe.seq isRely (K := fun x => Has log₀ events₀ x.2 x.1 Empty)
    ((safe_mkstemp h).mono fun out w l h => ?_) ?_
  · cases out with
    | ok x => exact h
    | error e => exact hover ⟨h.1, Or.inl h.2⟩
  rintro ⟨i, t⟩ w l h
  refine Safe.seq isRely (K := fun _ => Placed path ⟨data, mode⟩ log₀ events₀ t) ?_ fun _ w l h =>
    ?_
  · refine Safe.handle isRely (E := fun _ => Either path ⟨data, mode⟩ log₀ events₀ t i)
      (safe_putInPlace h) fun e w l h => ?_
    refine (safe_discard h).mono fun out w l h => ?_
    cases out with
    | ok => exact h.elim
    | error => exact hover h
  · refine (safe_settle h).mono fun out w l h => ?_
    cases out with
    | ok =>
      have h : Safely path ⟨data, mode⟩ log₀ events₀ w l := h
      obtain ⟨new, old, hl, hold, -⟩ := h.stored
      refine ⟨h.temp, Or.inr ⟨.put path.1 (some ⟨data, mode⟩), ⟨rfl, rfl⟩, ⟨new, old, hl, hold⟩,
        h.events⟩, fun _ _ _ he _ => ?_, fun _ ho => (nomatch ho)⟩
      cases he
      exact h.stored
    | error => exact hover h

end Write

/-! ## Removing and reading -/

section Read
variable {path : RealPath} {log₀ events₀ : List Event} {w : Shared} {l : Own}

theorem logged_now {e : Event} (h : log₀ <:+ w.log) {w' : Shared} (hl : w'.log = e :: w.log) :
    Logged e log₀ w' :=
  ⟨[], w.log, hl, h⟩

theorem safe_removeFile (h : Before log₀ events₀ w l) :
    Safe sem Fresh Rely (guard (.removeFile path)) (Post (.removeFile path) log₀ events₀)
      (removeFile path.1) w l := by
  have hpost : ∀ {out : Except Exn Unit} {e : Event} {w w' : Shared} {l' : Own}, log₀ <:+ w.log →
      w'.log = e :: w.log →
      l'.events = e :: events₀ → l'.temp = none → (FileOp.removeFile path).Answers e →
      Post (.removeFile path) log₀ events₀ out w' l' :=
    fun hlog hl he ht ha =>
      ⟨ht, Or.inr ⟨_, ha, logged_now hlog hl, he⟩, fun _ _ _ ho => (nomatch ho),
      fun _ ho => (nomatch ho)⟩
  have hfail : ∀ {e : Exn} {w' : Shared} {l' : Own}, l'.events = events₀ → l'.temp = none →
      Post (.removeFile path) log₀ events₀ (.error e) w' l' :=
    fun he ht => ⟨ht, Or.inl ⟨he, _, rfl⟩, fun _ _ _ ho => (nomatch ho), fun _ ho => (nomatch ho)⟩
  refine Safe.handle isRely (E := fun e w l => if e = .notFound then
    Post (.removeFile path) log₀ events₀ (.ok ()) w l
    else Post (.removeFile path) log₀ events₀ (.error e) w l) ?_ fun e w l h => ?_
  · refine Safe.callStable ?_ fun w₁ hr => ?_
    · refine StableQ.post (fun _ w l w₁ hr h => stable_post _ _ _ _ w l w₁ hr h) fun e w
        l w₁ hr h => ?_
      split
      · rename_i he
        rw [if_pos he] at h
        exact stable_post _ _ _ _ w l w₁ hr h
      · rename_i he
        rw [if_neg he] at h
        exact stable_post _ _ _ _ w l w₁ hr h
    · have h₁ := h.rely hr
      refine ⟨Or.inr (Or.inr ⟨h₁.temp, path, rfl, rfl⟩), fun r w₂ l₂ hn => ?_⟩
      have hunlinked : (unlinked path.1 (w₁, l)).1.log = .put path.1 none :: w₁.log ∧
          (unlinked path.1 (w₁, l)).2.events = .put path.1 none :: events₀ ∧
          (unlinked path.1 (w₁, l)).2.temp = none := by
        rw [unlinked, note_real _ _ path.2]
        exact ⟨rfl, congrArg (Event.put path.1 none :: ·) h₁.events, Own.forget_none h₁.temp⟩
      rcases next_unlink hn with ⟨he, ⟨rfl, hs⟩ | ⟨rfl, hs⟩⟩ | ⟨-, ⟨rfl, hs⟩ | ⟨rfl, hs | hs⟩⟩
      · have hread : w₁.disk.read path.1 = none := by
          have he' : w₁.disk.entries path.1 = none := he
          rw [Disk.read, he', Option.map_none]
        rw [saw, note_real _ _ path.2] at hs
        cases hs
        exact hpost h₁.log (congrArg (Event.saw path.1 · :: w₁.log) hread)
          (by rw [h₁.events]; exact congrArg (Event.saw path.1 · :: events₀) hread)
          h₁.temp ⟨rfl, rfl⟩
      · cases hs
        exact hfail h₁.events h₁.temp
      · exact of_state (K := Post (.removeFile path) log₀ events₀ (.ok ())) hs
          (hpost h₁.log hunlinked.1 hunlinked.2.1 hunlinked.2.2 ⟨rfl, rfl⟩)
      · exact of_state (K := Post (.removeFile path) log₀ events₀ (.error .other)) hs
          (hpost h₁.log hunlinked.1 hunlinked.2.1 hunlinked.2.2 ⟨rfl, rfl⟩)
      · cases hs
        exact hfail h₁.events (Own.forget_none h₁.temp)
  · split at h
    · rename_i he
      rw [if_pos he]
      exact Safe.ret fun w₁ hr => stable_post _ _ _ _ w l w₁ hr h
    · rename_i he
      rw [if_neg he]
      exact Safe.raise fun w₁ hr => stable_post _ _ _ _ w l w₁ hr h

/-- The reader has seen `v`. -/
structure Seen (path : RealPath) (log₀ events₀ : List Event) (v : Option File) (w : Shared)
    (l : Own) : Prop where
  temp : l.temp = none
  events : l.events = .saw path.1 v :: events₀
  logged : Logged (.saw path.1 v) log₀ w

theorem Seen.rely {v : Option File} {w' : Shared} (h : Seen path log₀ events₀ v w l)
    (hr : Rely l w w') :
    Seen path log₀ events₀ v w' l := ⟨h.temp, h.events, h.logged.since hr.since⟩

/-- It has the file open. -/
structure Opened (path : RealPath) (log₀ events₀ : List Event) (i : Nat) (w : Shared) (l : Own) :
    Prop where
  seen : Seen path log₀ events₀ (some (w.disk.inodes i).file) w l
  reading : l.reading = some (path.1, i)

theorem Opened.rely {i : Nat} {w' : Shared} (h : Opened path log₀ events₀ i w l)
    (hr : Rely l w w') : Opened path log₀ events₀ i w' l := by
  refine ⟨?_, h.reading⟩
  rw [hr.reading path.1 i h.reading]
  exact h.seen.rely hr

/-- What a reader returns is all of the file that it has seen. -/
def Returned (path : RealPath) (log₀ events₀ : List Event) (r : Option (List UInt8)) (w : Shared)
    (l : Own) : Prop :=
  ∃ v, Seen path log₀ events₀ v w l ∧ r = v.map File.data ∧ ∀ f, v = some f →
    l.got = some (path.1, f.data)

/-- It gives up before or after it has seen the file. -/
def Unread (path : RealPath) (log₀ events₀ : List Event) (w : Shared) (l : Own) : Prop :=
  l.temp = none ∧ (l.events = events₀ ∨ ∃ v, Seen path log₀ events₀ v w l)

theorem Returned.rely {r : Option (List UInt8)} {w' : Shared} (h : Returned path log₀ events₀ r w l)
    (hr : Rely l w w') : Returned path log₀ events₀ r w' l := by
  obtain ⟨v, hs, hv, hg⟩ := h
  exact ⟨v, hs.rely hr, hv, hg⟩

theorem Unread.rely {w' : Shared} (h : Unread path log₀ events₀ w l) (hr : Rely l w w') :
    Unread path log₀ events₀ w' l :=
  ⟨h.1, h.2.imp id fun ⟨v, hs⟩ => ⟨v, hs.rely hr⟩⟩

theorem seen_of_saw (path : RealPath) {w : Shared} {l : Own} (h : Before log₀ events₀ w l) :
    Seen path log₀ events₀ (w.disk.read path.1) (saw path.1 (w, l)).1 (saw path.1 (w, l)).2 := by
  rw [saw, note_real _ _ path.2]
  exact ⟨h.temp, congrArg (Event.saw path.1 (w.disk.read path.1) :: ·) h.events,
    logged_now h.log rfl⟩

theorem opened_of_saw {i : Nat} {s : State}
    (h : Seen path log₀ events₀ (some (s.1.disk.inodes i).file) (saw path.1 s).1 (saw path.1 s).2) :
    Opened path log₀ events₀ i (opened path.1 i s).1 (opened path.1 i s).2 := by
  have hdisk : (opened path.1 i s).1.disk = s.1.disk := by simp only [opened, saw, note_disk]
  refine ⟨?_, rfl⟩
  rw [hdisk]
  exact ⟨h.temp, h.events, h.logged⟩

theorem safe_openRead (h : Before log₀ events₀ w l) :
    Safe sem Fresh Rely (guard (.readFile path))
      (post (Opened path log₀ events₀) fun e w l => if e = .notFound then
        Returned path log₀ events₀ none w l
        else Unread path log₀ events₀ w l) (.call (.openRead path.1)) w l := by
  refine Safe.callStable (StableQ.post (fun _ _ _ _ hr h => h.rely hr) fun e w l w₁ hr h => ?_)
    fun w₁ hr => ?_
  · split
    · rename_i he
      rw [if_pos he] at h
      exact h.rely hr
    · rename_i he
      rw [if_neg he] at h
      exact h.rely hr
  · have h₁ := h.rely hr
    have hseen := seen_of_saw path h₁
    refine ⟨path.2, fun r w₂ l₂ hn => ?_⟩
    obtain ⟨c, -, hp⟩ := hn
    change respond c (.openRead path.1) (w₁, l) = _ at hp
    simp only [respond] at hp
    cases he : w₁.disk.entries path.1 with
    | none =>
      rw [Disk.read, he] at hseen
      rw [he] at hp
      cases c with
      | ok =>
        rw [Option.some.injEq, Prod.mk.injEq] at hp
        obtain ⟨rfl, hs⟩ := hp
        exact of_state (K := Returned path log₀ events₀ none) hs.symm
          ⟨none, hseen, rfl, by rintro f ⟨⟩⟩
      | fail done =>
        cases hp
        exact ⟨h₁.temp, Or.inl h₁.events⟩
      | _ => cases hp
    | some i =>
      rw [Disk.read, he] at hseen
      rw [he] at hp
      cases c with
      | ok =>
        rw [Option.some.injEq, Prod.mk.injEq] at hp
        obtain ⟨rfl, hs⟩ := hp
        refine of_state (K := Opened path log₀ events₀ i) hs.symm (opened_of_saw ?_)
        rw [Option.map_some] at hseen
        exact hseen
      | fail done =>
        cases hp
        exact ⟨h₁.temp, Or.inl h₁.events⟩
      | _ => cases hp

theorem safe_readAll {op : FileOp} {i : Nat} (h : Opened path log₀ events₀ i w l) :
    Safe sem Fresh Rely (guard op)
      (post (fun data => Returned path log₀ events₀ (some data)) fun e w l => e = .other ∧
        Unread path log₀ events₀ w l)
      (.call (.readAll i)) w l := by
  refine Safe.callStable (StableQ.post (fun _ _ _ _ hr h => h.rely hr) fun _ _ _ _ hr h =>
    ⟨h.1, h.2.rely hr⟩) fun w₁ hr => ?_
  have h₁ := h.rely hr
  refine ⟨⟨path.1, h₁.reading⟩, fun r w₂ l₂ hn => ?_⟩
  obtain ⟨c, -, hp⟩ := hn
  cases c with
  | ok =>
    cases hp
    refine ⟨_, ⟨h₁.seen.temp, h₁.seen.events, h₁.seen.logged⟩, rfl, fun f hf => ?_⟩
    rw [h₁.reading, ← Option.some.inj hf]
    rfl
  | fail done =>
    cases hp
    exact ⟨rfl, h₁.seen.temp, Or.inr ⟨_, h₁.seen⟩⟩
  | _ => cases hp

/-- Closing keeps what does not speak of the open file. -/
theorem safe_closeRead {op : FileOp} {K : Shared → Own → Prop} {i : Nat}
    (hK : ∀ w w' l, Rely l w w' → K w l → K w' l)
    (hclose : ∀ w l, K w l → K w { l with reading := none }) (h : K w l) :
    Safe sem Fresh Rely (guard op) (post (fun _ => K) fun e w l => e = .other ∧ K w l)
      (.call (.closeRead i)) w l := by
  refine Safe.callStable (StableQ.post (fun _ w l w₁ hr h => hK w w₁ l hr h) fun _ w l w₁ hr h =>
    ⟨h.1, hK w w₁ l hr h.2⟩) fun w₁ hr => ?_
  refine ⟨trivial, fun r w₂ l₂ hn => ?_⟩
  have hk := hclose w₁ l (hK w w₁ l hr h)
  obtain ⟨c, -, hp⟩ := hn
  cases c with
  | ok => cases hp; exact hk
  | fail done => cases hp; exact ⟨rfl, hk⟩
  | _ => cases hp

theorem Returned.close {r : Option (List UInt8)} {w : Shared} {l : Own}
    (h : Returned path log₀ events₀ r w l) :
    Returned path log₀ events₀ r w { l with reading := none } := by
  obtain ⟨v, hs, hv, hg⟩ := h
  exact ⟨v, ⟨hs.temp, hs.events, hs.logged⟩, hv, hg⟩

theorem Unread.close {w : Shared} {l : Own} (h : Unread path log₀ events₀ w l) :
    Unread path log₀ events₀ w { l with reading := none } :=
  ⟨h.1, h.2.imp id fun ⟨v, hs⟩ => ⟨v, hs.temp, hs.events, hs.logged⟩⟩

theorem Returned.unread {r : Option (List UInt8)} {w : Shared} {l : Own}
    (h : Returned path log₀ events₀ r w l) : Unread path log₀ events₀ w l := by
  obtain ⟨v, hs, -⟩ := h
  exact ⟨hs.temp, Or.inr ⟨v, hs⟩⟩

theorem safe_readFile (h : Before log₀ events₀ w l) :
    Safe sem Fresh Rely (guard (.readFile path))
      (post (Returned path log₀ events₀) fun _ => Unread path log₀ events₀)
      (readFile path.1) w l := by
  refine Safe.handle isRely (E := fun e w l => if e = .notFound then
    Returned path log₀ events₀ none w l else Unread path log₀ events₀ w l) ?_ fun e w l h => ?_
  · refine Safe.seq isRely (K := Opened path log₀ events₀)
      ((safe_openRead h).mono fun out w l h => ?_) fun i w l h => ?_
    · cases out <;> exact h
    · refine (Safe.tryFinally (Q := post (Returned path log₀ events₀) fun e w l => e = .other ∧
        Unread path log₀ events₀ w l)
        (K := fun r => Returned path log₀ events₀ r)
          (E := fun e w l => e = .other ∧ Unread path log₀ events₀ w l)
        isRely (StableQ.post (fun _ _ _ _ hr h => h.rely hr) fun _ _ _ _ hr =>
          And.imp_right fun h => Unread.rely h hr)
        (fun _ _ _ _ hr h => h.rely hr) (fun _ _ _ _ hr => And.imp_right fun h => Unread.rely h hr)
          ?_ (fun r w l h => ?_) fun e w l h => ?_).mono fun out w l h => ?_
      · exact Safe.seq isRely (safe_readAll h) fun data w l h => Safe.ret fun w₁ hr => h.rely hr
      · refine (safe_closeRead (K := Returned path log₀ events₀ r) (fun _ _ _ hr h => h.rely hr)
          (fun _ _ h => h.close) h).mono fun out w l h => ?_
        cases out with
        | ok => exact h
        | error => exact ⟨h.1, h.2.unread⟩
      · obtain ⟨rfl, hu⟩ := h
        refine (safe_closeRead (K := Unread path log₀ events₀) (fun _ _ _ hr h => h.rely hr)
          (fun _ _ h => h.close) hu).mono fun out w l h => ?_
        cases out with
        | ok => exact ⟨rfl, h⟩
        | error => exact h
      · cases out with
        | ok => exact h
        | error e =>
          obtain ⟨rfl, hu⟩ := h
          exact hu
  · split
    · rename_i he
      rw [if_pos he] at h
      exact Safe.ret fun w₁ hr => h.rely hr
    · rename_i he
      rw [if_neg he] at h
      exact Safe.raise fun w₁ hr => h.rely hr

end Read

/-! ## Any operation -/

theorem safe_program (op : FileOp) {log₀ events₀ : List Event} {w : Shared} {l : Own}
    (h : Before log₀ events₀ w l) :
    Safe sem Fresh Rely (guard op) (Post op log₀ events₀) op.program w l := by
  cases op with
  | writeFile path data mode => exact safe_writeFile h
  | removeFile path => exact safe_removeFile h
  | readFile path =>
    have hseen : ∀ {v w l} {out : Except Exn Unit}, Seen path log₀ events₀ v w l →
        (∀ p f, l.events = .saw p (some f) :: events₀ → out = .ok () → l.got = some (p, f.data)) →
        Post (.readFile path) log₀ events₀ out w l := fun {v} _ _ _ hs hg =>
      ⟨hs.temp, Or.inr ⟨.saw path.1 v, rfl, hs.logged, hs.events⟩, fun _ _ _ ho => (nomatch ho),
        fun _ _ ho p f he => hg p f he ho⟩
    refine Safe.seq isRely (K := Returned path log₀ events₀)
      ((safe_readFile h).mono fun out w l h => ?_) fun r w l h => ?_
    · cases out with
      | ok => exact h
      | error e =>
        obtain ⟨htemp, he | ⟨v, hs⟩⟩ := h
        · exact ⟨htemp, Or.inl ⟨he, e, rfl⟩, fun _ _ _ ho => (nomatch ho),
            fun _ _ ho => (nomatch ho)⟩
        · exact hseen hs fun _ _ _ ho => (nomatch ho)
    · refine Safe.ret fun w₁ hr => ?_
      obtain ⟨v, hs, -, hg⟩ := h.rely hr
      refine hseen hs fun p f he _ => ?_
      rw [hs.events, List.cons.injEq, Event.saw.injEq] at he
      rw [← he.1.1]
      exact hg f he.1.2

end Storage
end WebProxyPanel
