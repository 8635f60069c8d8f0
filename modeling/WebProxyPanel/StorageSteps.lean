import WebProxyPanel.Storage
/-!
# What one call does to the files

`Does` is what one call may do when its process keeps `guard`: write to its own temporary file, and
put that in place only when it is complete and synced. `does_of_next` is the one place that looks
into `respond` for it.
-/

namespace WebProxyPanel
namespace Storage
open Effects Files

/-! ## The calls of a guarded process -/

/-- What an operation may put at a path. -/
def FileOp.Puts : FileOp → String → Option File → Prop
  | .writeFile path data mode, p, v => p = path.1 ∧ v = some ⟨data, mode⟩
  | .removeFile path, p, v => p = path.1 ∧ v = none
  | .readFile _, _, _ => False

/-- The temporary file of the process. -/
structure Mine (t : String) (i : Nat) (w : Shared) (l : Own) : Prop where
  own : l.temp = some (t, i)
  temp : isTemp t = true
  drawn : t ∈ w.drawn
  entry : w.disk.entries t = some i

/-- A temporary file that the process had. -/
structure Gone (t : String) (w : Shared) (l : Own) : Prop where
  own : l.temp = none
  temp : isTemp t = true
  drawn : t ∈ w.drawn
  entry : w.disk.entries t = none

/-- Before a call: it is on the process's own temporary file, which may be put in place only as the
operation asks. -/
def guard (op : FileOp) : Guard Act Shared Own := fun w l {_} a =>
  match a with
  | .mkstemp _ => l.temp = none
  | .fchmod fd _ | .write fd _ | .flush fd | .fsync fd | .close fd => ∃ t, Mine t fd w l
  | .replace src dst =>
    ∃ i path data mode, op = .writeFile path data mode ∧ dst = path.1 ∧ Mine src i w l ∧
      w.disk.inodes i = ⟨⟨data, mode⟩, true⟩
  | .unlink path =>
    (∃ i, Mine path i w l) ∨ Gone path w l ∨ (l.temp = none ∧ ∃ p, op = .removeFile p ∧ path = p.1)
  | .openRead path => isTemp path = false
  | .readAll fd => ∃ p, l.reading = some (p, fd)
  | _ => True

/-- What a call may do. -/
inductive Does (op : FileOp) (s : State) : State → Prop
  | same {l : Own} : l.temp = s.2.temp → (l.reading = s.2.reading ∨ l.reading = none) →
      l.got = s.2.got → Does op s (s.1, l)
  | fill {t : String} {i : Nat} {d : Disk String} {l : Own} : Mine t i s.1 s.2 →
      d.entries = s.1.disk.entries →
      d.past = s.1.disk.past → d.next = s.1.disk.next →
        (∀ j, j ≠ i → d.inodes j = s.1.disk.inodes j) → l.temp = s.2.temp →
      l.reading = s.2.reading → l.got = s.2.got → Does op s ({ s.1 with disk := d }, l)
  | made {path : String} : s.2.temp = none → isTemp path = true → path ∉ s.1.drawn →
      s.1.disk.entries path = none → Does op s (Storage.made path s)
  | lost {path : String} : s.2.temp = none → isTemp path = true → path ∉ s.1.drawn →
      s.1.disk.entries path = none → Does op s (leave path (Storage.made path s))
  | replaced {t : String} {i : Nat} {path : RealPath} {data : List UInt8} {mode : Nat} :
      op = .writeFile path data mode → Mine t i s.1 s.2 → s.1.disk.inodes i = ⟨⟨data, mode⟩, true⟩ →
      Does op s (Storage.replaced t path.1 s)
  | discarded {t : String} {i : Nat} : Mine t i s.1 s.2 → Does op s (unlinked t s)
  | removed {path : RealPath} : op = .removeFile path → s.2.temp = none → Does op s
      (unlinked path.1 s)
  | left {t : String} {i : Nat} : Mine t i s.1 s.2 → Does op s (leave t s)
  | strayed {path : String} : s.2.temp = none → Does op s (leave path s)
  | settled {here : String → Bool} : Does op s ({ s.1 with disk := s.1.disk.syncDir here }, s.2)
  | saw {path : String} : Does op s (Storage.saw path s)
  | opened {path : String} {i : Nat} : isTemp path = false → s.1.disk.entries path = some i →
      Does op s (Storage.opened path i s)
  | got {p : String} {i : Nat} : s.2.reading = some (p, i) →
      Does op s (s.1, { s.2 with got := s.2.reading.map fun r => (r.1, (s.1.disk.inodes i).file.data) })

/-! ## One lemma for every call -/

theorem note_temp {path : String} (e : Event) (s : State) (h : isTemp path = true) :
    note path e s = s := if_pos h

theorem note_real {path : String} (e : Event) (s : State) (h : isTemp path = false) :
    note path e s = ({ s.1 with log := e :: s.1.log }, { s.2 with events := e :: s.2.events }) := by
  simp [note, h]

theorem chmod_inodes {d : Disk String} {i mode : Nat} :
    ∀ j, j ≠ i → (d.chmod i mode).inodes j = d.inodes j :=
  fun _ hj => Disk.setInode_ne _ hj

theorem does_of_some {op : FileOp} {s s' s₀ : State} {β : Type} {r r₀ : Except Exn β}
    (h : some (r₀, s₀) = some (r, s')) (hd : Does op s s₀) : Does op s s' := by
  rw [Option.some.injEq, Prod.mk.injEq] at h
  rw [← h.2]
  exact hd

theorem does_of_plain {op : FileOp} {s s' : State} {c : Choice} {f : Disk String → Disk String}
    {r : Except Exn Unit} (hf : Does op s ({ s.1 with disk := f s.1.disk }, s.2))
    (h : plain c f s = some (r, s')) : Does op s s' := by
  unfold plain at h
  split at h
  · exact does_of_some h hf
  · rename_i done
    cases done
    · exact does_of_some h (.same rfl (Or.inl rfl) rfl)
    · exact does_of_some h hf
  · cases h

theorem does_of_passOn {op : FileOp} {s s' : State} {c : Choice} {t : String} {fd : Nat}
    {waiting : List UInt8} {all : Bool} {r : Except Exn Unit} (hm : Mine t fd s.1 s.2)
    (h : passOn c fd waiting all s = some (r, s')) : Does op s s' := by
  unfold passOn at h
  split at h
  · rename_i n raises
    split at h
    · cases h
    · obtain ⟨he, hp, hn, hi⟩ := Disk.append_entries (i := fd) (d := s.1.disk) (waiting.take n)
      exact does_of_some h (.fill hm he hp hn hi rfl rfl rfl)
  · cases h

/-- What a call of a guarded process does. -/
theorem does_of_next {op : FileOp} {s s' : State} {β : Type} {a : Act β} {r : Except Exn β}
    (hg : guard op s.1 s.2 a) (hn : sem.Next Fresh s a r s') : Does op s s' := by
  obtain ⟨w, l⟩ := s
  obtain ⟨c, hfresh, hp⟩ := hn
  cases a with
  | mkstemp directory =>
    change respond c (.mkstemp directory) (w, l) = _ at hp
    cases c with
    | name random lost =>
      simp only [respond] at hp
      split at hp
      · cases hp
      · rename_i hvalid
        rw [not_or, not_not, not_not] at hvalid
        have htemp := isTemp_joinPath directory hvalid.1.2
        split at hp
        · exact does_of_some hp (.lost hg htemp (of_decide_eq_true hfresh) hvalid.2)
        · exact does_of_some hp (.made hg htemp (of_decide_eq_true hfresh) hvalid.2)
    | fail done =>
      cases done
      · exact does_of_some hp (.same rfl (Or.inl rfl) rfl)
      · cases hp
    | _ => cases hp
  | fchmod fd mode =>
    obtain ⟨t, hm⟩ := hg
    exact does_of_plain (.fill hm rfl rfl rfl chmod_inodes rfl rfl rfl) hp
  | fdopen fd =>
    cases c with
    | ok => exact does_of_some hp (.same rfl (Or.inl rfl) rfl)
    | fail => exact does_of_some hp (.same rfl (Or.inl rfl) rfl)
    | _ => cases hp
  | write fd data =>
    obtain ⟨t, hm⟩ := hg
    exact does_of_passOn hm hp
  | flush fd =>
    obtain ⟨t, hm⟩ := hg
    exact does_of_passOn hm hp
  | fsync fd =>
    obtain ⟨t, hm⟩ := hg
    exact does_of_plain (.fill hm rfl rfl rfl (fun j hj => Disk.setInode_ne _ hj) rfl rfl rfl) hp
  | close fd =>
    obtain ⟨t, hm⟩ := hg
    exact does_of_passOn hm hp
  | replace src dst =>
    obtain ⟨i, path, data, mode, hop, rfl, hm, hi⟩ := hg
    change respond c (.replace src path.1) (w, l) = _ at hp
    have he : w.disk.entries src = some i := hm.entry
    simp only [respond, he] at hp
    cases c with
    | ok => exact does_of_some hp (.replaced hop hm hi)
    | fail done =>
      cases done
      · exact does_of_some hp (.same rfl (Or.inl rfl) rfl)
      · exact does_of_some hp (.replaced hop hm hi)
    | _ => cases hp
  | unlink path =>
    change respond c (.unlink path) (w, l) = _ at hp
    have hthere : ∀ i, w.disk.entries path = some i → Does op (w, l) (unlinked path (w, l)) ∧
        Does op (w, l) (leave path (w, l)) := by
      rintro i hi
      rcases hg with ⟨k, hm⟩ | hgone | ⟨hnone, p, hop, rfl⟩
      · exact ⟨.discarded hm, .left hm⟩
      · rw [hgone.entry] at hi
        cases hi
      · exact ⟨.removed hop hnone, .strayed hnone⟩
    simp only [respond] at hp
    cases he : w.disk.entries path with
    | none =>
      rw [he] at hp
      cases c with
      | ok => exact does_of_some hp (.saw)
      | fail done =>
        cases done
        · exact does_of_some hp (.same rfl (Or.inl rfl) rfl)
        · cases hp
      | _ => cases hp
    | some i =>
      rw [he] at hp
      cases c with
      | ok => exact does_of_some hp (hthere i he).1
      | fail done =>
        cases done
        · exact does_of_some hp (hthere i he).2
        · exact does_of_some hp (hthere i he).1
      | _ => cases hp
  | openDir directory => exact does_of_plain (.same rfl (Or.inl rfl) rfl) hp
  | fsyncDir directory => exact does_of_plain .settled hp
  | closeDir directory => exact does_of_plain (.same rfl (Or.inl rfl) rfl) hp
  | openRead path =>
    change respond c (.openRead path) (w, l) = _ at hp
    simp only [respond] at hp
    cases he : w.disk.entries path with
    | none =>
      rw [he] at hp
      cases c with
      | ok => exact does_of_some hp (.saw)
      | fail done => exact does_of_some hp (.same rfl (Or.inl rfl) rfl)
      | _ => cases hp
    | some i =>
      rw [he] at hp
      cases c with
      | ok => exact does_of_some hp (.opened hg he)
      | fail done => exact does_of_some hp (.same rfl (Or.inl rfl) rfl)
      | _ => cases hp
  | readAll fd =>
    obtain ⟨p, hr⟩ := hg
    cases c with
    | ok => exact does_of_some hp (.got hr)
    | fail => exact does_of_some hp (.same rfl (Or.inl rfl) rfl)
    | _ => cases hp
  | closeRead fd =>
    cases c with
    | ok => exact does_of_some hp (.same rfl (Or.inr rfl) rfl)
    | fail => exact does_of_some hp (.same rfl (Or.inr rfl) rfl)
    | _ => cases hp

end Storage
end WebProxyPanel
