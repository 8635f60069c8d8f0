import WebProxyPanel.StorageOwned
/-!
# What the others see, and what the log tells

`Since` and `Rely` are what a process may count on while the others go on. `Told` holds in any run:
the log explains all that can be read.
-/

namespace WebProxyPanel
namespace Storage
open Effects Files

/-! ## What the others see -/

/-- Later on: what a name may hold, or holds, is what it did then or has been put there since. -/
def Since (w w' : Shared) : Prop :=
  ∃ new, w'.log = new ++ w.log ∧ ∀ n, isTemp n = false →
    (∀ v ∈ w'.disk.may n, v ∈ w.disk.may n ∨ .put n v ∈ new) ∧
    (w'.disk.read n = w.disk.read n ∨ .put n (w'.disk.read n) ∈ new)

theorem Since.refl (w : Shared) : Since w w :=
  ⟨[], rfl, fun _ _ => ⟨fun _ h => Or.inl h, Or.inl rfl⟩⟩

theorem Since.trans {w₁ w₂ w₃ : Shared} (h : Since w₁ w₂) (h' : Since w₂ w₃) : Since w₁ w₃ := by
  obtain ⟨new, hl, hn⟩ := h
  obtain ⟨new', hl', hn'⟩ := h'
  refine ⟨new' ++ new, by rw [hl', hl, List.append_assoc], fun n hreal => ⟨fun v hv => ?_, ?_⟩⟩
  · rcases (hn' n hreal).1 v hv with hv | hv
    · exact ((hn n hreal).1 v hv).imp id (List.mem_append_right _)
    · exact Or.inr (List.mem_append_left _ hv)
  · rcases (hn' n hreal).2 with he | hv
    · rw [he]
      exact (hn n hreal).2.imp id (List.mem_append_right _)
    · exact Or.inr (List.mem_append_left _ hv)

/-- A step that changes nothing under the program's own names. -/
theorem Since.same {w w' : Shared} (new : List Event) (hl : w'.log = new ++ w.log)
    (h : ∀ n, isTemp n = false → w'.disk.may n = w.disk.may n) : Since w w' :=
  ⟨new, hl, fun n hn => ⟨fun _ hv => Or.inl (h n hn ▸ hv), Or.inl (Disk.read_of_may (h n hn))⟩⟩

/-- A step that puts something at a path. -/
theorem Since.put {w w' : Shared} {p : String} {v : Option File} (hl : w'.log = .put p v :: w.log)
    (hp : w'.disk.may p = v :: w.disk.may p)
    (h : ∀ n, isTemp n = false → n ≠ p → w'.disk.may n = w.disk.may n) : Since w w' := by
  refine ⟨[.put p v], hl, fun n hn => ?_⟩
  by_cases hnp : n = p
  · subst hnp
    have hread : w'.disk.read n = v := List.head_eq_of_cons_eq hp
    rw [hp, hread]
    refine ⟨fun u hu => ?_, Or.inr List.mem_cons_self⟩
    rcases List.mem_cons.1 hu with rfl | hu
    · exact Or.inr List.mem_cons_self
    · exact Or.inl hu
  · exact ⟨fun _ hv => Or.inl (h n hn hnp ▸ hv), Or.inl (Disk.read_of_may (h n hn hnp))⟩

theorem note_log (path : String) (e : Event) (s : State) :
    ∃ new, (note path e s).1.log = new ++ s.1.log := by
  unfold note
  split
  · exact ⟨[], rfl⟩
  · exact ⟨[e], rfl⟩

theorem ne_of_isTemp {t n : String} (ht : isTemp t = true) (hn : isTemp n = false) : n ≠ t := by
  rintro rfl
  rw [ht] at hn
  cases hn

section Does
variable {w : Shared} {ls : Nat → Own} {i : Nat} {op : FileOp} {s' : State}

theorem since_of_does (h : Owned w ls) (hd : Does op (w, ls i) s') : Since w s'.1 := by
  cases hd with
  | same => exact .refl w
  | @fill t k d l hm he hp _ hi =>
    refine .same [] rfl fun n hn => Disk.may_congr (congrFun he n) (congrFun hp n) fun j hj => ?_
    have hne : j ≠ k := by
      rintro rfl
      exact h.not_refers hm.own hn hj
    rw [hi j hne]
  | made _ ht _ _ =>
    exact .same [] rfl fun n hn => Disk.may_create (ne_of_isTemp ht hn) fun hr =>
      (h.bound n _ hr).false
  | lost _ ht _ _ =>
    exact .same [] rfl fun n hn => Disk.may_create (ne_of_isTemp ht hn) fun hr =>
      (h.bound n _ hr).false
  | @replaced t k path data mode _ hm hi =>
    have hne : t ≠ path.1 := (ne_of_isTemp hm.temp path.2).symm
    refine .put (p := path.1) (v := w.disk.read t) ?_ ?_ fun n hn hnp => ?_
    · rw [replaced, note_real _ _ path.2]
    · rw [replaced, note_disk]
      exact Disk.may_rename hne
    · rw [replaced, note_disk]
      exact Disk.may_rename_ne (ne_of_isTemp hm.temp hn) hnp
  | discarded hm =>
    refine .same [] ?_ fun n hn => ?_
    · rw [unlinked, note_temp _ _ hm.temp]
      rfl
    · rw [unlinked, note_disk]
      exact Disk.may_unlink_ne (ne_of_isTemp hm.temp hn)
  | @removed path _ _ =>
    refine .put (p := path.1) (v := none) ?_ ?_ fun n _ hnp => ?_
    · rw [unlinked, note_real _ _ path.2]
    · rw [unlinked, note_disk]
      exact Disk.may_unlink
    · rw [unlinked, note_disk]
      exact Disk.may_unlink_ne hnp
  | left => exact .same [] rfl fun _ _ => rfl
  | strayed => exact .same [] rfl fun _ _ => rfl
  | settled =>
    exact ⟨[], rfl, fun n _ => ⟨fun v hv => Or.inl (Disk.may_syncDir_subset _ n hv), Or.inl rfl⟩⟩
  | @saw path =>
    obtain ⟨new, hl⟩ := note_log path (.saw path (w.disk.read path)) (w, ls i)
    exact .same new hl fun n _ => by rw [saw, note_disk]
  | @opened path _ _ _ =>
    obtain ⟨new, hl⟩ := note_log path (.saw path (w.disk.read path)) (w, ls i)
    exact .same new hl fun n _ => by simp only [opened, saw, note_disk]
  | got => exact .refl w

/-- A call touches no file but a new one and the process's own. -/
theorem inodes_of_does (hd : Does op (w, ls i) s') {k : Nat} (hk : k < w.disk.next)
    (hne : ∀ t, (ls i).temp ≠ some (t, k)) : s'.1.disk.inodes k = w.disk.inodes k := by
  cases hd with
  | @fill t j d l hm he hp hn hi =>
    refine hi k ?_
    rintro rfl
    exact hne t hm.own
  | made => exact if_neg hk.ne
  | lost => exact if_neg hk.ne
  | replaced => rw [replaced, note_disk]; rfl
  | discarded => rw [unlinked, note_disk]; rfl
  | removed => rw [unlinked, note_disk]; rfl
  | saw => rw [saw, note_disk]
  | opened => simp only [opened, saw, note_disk]
  | _ => rfl

/-- A call changes no temporary file's name but a new one and the process's own. -/
theorem entries_of_does (hd : Does op (w, ls i) s') {t : String} (ht : isTemp t = true)
    (hdrawn : t ∈ w.drawn) (hne : ∀ k, (ls i).temp ≠ some (t, k)) :
    s'.1.disk.entries t = w.disk.entries t := by
  have hnew : ∀ path : String, path ∉ w.drawn → (w.disk.create path 0o600).entries t =
      w.disk.entries t := by
    intro path hp
    have : t ≠ path := by
      rintro rfl
      exact hp hdrawn
    exact if_neg this
  cases hd with
  | fill hm he => exact congrFun he t
  | made _ _ hp _ => exact hnew _ hp
  | lost _ _ hp _ => exact hnew _ hp
  | @replaced t' k path data mode _ hm =>
    have htt : t ≠ t' := by
      rintro rfl
      exact hne k hm.own
    rw [replaced, note_disk]
    exact Disk.rename_entries_ne htt (ne_of_isTemp ht path.2).symm
  | @discarded t' k hm =>
    have htt : t ≠ t' := by
      rintro rfl
      exact hne k hm.own
    rw [unlinked, note_disk]
    exact if_neg htt
  | @removed path =>
    rw [unlinked, note_disk]
    exact if_neg (ne_of_isTemp ht path.2).symm
  | saw => rw [saw, note_disk]
  | opened => simp only [opened, saw, note_disk]
  | _ => rfl

theorem drawn_of_does (hd : Does op (w, ls i) s') : w.drawn ⊆ s'.1.drawn := by
  cases hd with
  | made => exact List.subset_cons_self _ _
  | lost => exact List.subset_cons_self _ _
  | replaced => rw [replaced, note_drawn]; exact List.Subset.refl _
  | discarded => rw [unlinked, note_drawn]; exact List.Subset.refl _
  | removed => rw [unlinked, note_drawn]; exact List.Subset.refl _
  | saw => rw [saw, note_drawn]; exact List.Subset.refl _
  | opened => simp only [opened, saw, note_drawn]; exact List.Subset.refl _
  | _ => exact List.Subset.refl _

end Does

/-- What a process may rely on. -/
structure Rely (l : Own) (w w' : Shared) : Prop where
  temp : ∀ t k, l.temp = some (t, k) → w'.disk.entries t = w.disk.entries t ∧
    w'.disk.inodes k = w.disk.inodes k
  reading : ∀ p k, l.reading = some (p, k) → w'.disk.inodes k = w.disk.inodes k
  gone : ∀ t ∈ w.drawn, isTemp t = true → w.disk.entries t = none → w'.disk.entries t = none
  drawn : w.drawn ⊆ w'.drawn
  since : Since w w'

theorem isRely : IsRely Rely where
  refl _ w := ⟨fun _ _ _ => ⟨rfl, rfl⟩, fun _ _ _ => rfl, fun _ _ _ h => h,
    List.Subset.refl _, .refl w⟩
  trans h h' :=
    ⟨fun t k ht => ⟨((h'.temp t k ht).1).trans (h.temp t k ht).1,
      ((h'.temp t k ht).2).trans (h.temp t k ht).2⟩,
      fun p k hp => (h'.reading p k hp).trans (h.reading p k hp),
      fun t ht htemp he => h'.gone t (h.drawn ht) htemp (h.gone t ht htemp he),
      List.Subset.trans h.drawn h'.drawn, h.since.trans h'.since⟩

theorem Owned.rely {w : Shared} {ls : Nat → Own} {i j : Nat} {op : FileOp} {s' : State}
    (h : Owned w ls) (hd : Does op (w, ls i) s') (hj : j ≠ i) : Rely (ls j) w s'.1 where
  temp t k ht := by
    have hm := h.mine j t k ht
    have hne : ∀ t', (ls i).temp ≠ some (t', k) := by
      intro t' hi
      have htt := h.alone j t k ht t' (List.mem_cons.2 (Or.inl (h.mine i t' k hi).entry.symm))
      exact hj (h.apart j i t k k ht (htt ▸ hi))
    refine ⟨entries_of_does hd hm.temp hm.drawn fun k' hi => hj (h.apart j i t k k' ht hi),
      inodes_of_does hd ?_ hne⟩
    exact h.bound t k (List.mem_cons.2 (Or.inl hm.entry.symm))
  reading p k hp := by
    obtain ⟨hlt, -, hne⟩ := h.reading j p k hp
    exact inodes_of_does hd hlt (hne i)
  gone t ht htemp he := by
    rw [entries_of_does hd htemp ht fun k hi => ?_]
    · exact he
    · rw [(h.mine i t k hi).entry] at he
      cases he
  drawn := drawn_of_does hd
  since := since_of_does h hd

/-! ## What the log tells -/

/-- What is at a path after some events, the latest first. -/
def replay (first : String → Option File) : List Event → String → Option File
  | [], n => first n
  | .put p v :: es, n => if n = p then v else replay first es n
  | .saw _ _ :: es, n => replay first es n
  | .powerLoss after :: _, n => after n

/-- Everybody has seen what was there. -/
def Legal (first : String → Option File) : List Event → Prop
  | [] => True
  | .saw p v :: es => v = replay first es p ∧ Legal first es
  | _ :: es => Legal first es

/-- The file was there from the beginning or has been put there. -/
def Known (w₀ w : Shared) (n : String) (v : Option File) : Prop :=
  v = w₀.disk.read n ∨ .put n v ∈ w.log

structure Told (asked : FileOp → Prop) (w₀ w : Shared) (ls : Nat → Own) : Prop where
  asked : ∀ n v, .put n v ∈ w.log → isTemp n = false ∧ ∃ op, asked op ∧ op.Puts n v
  known : ∀ n, isTemp n = false → ∀ v ∈ w.disk.may n, Known w₀ w n v
  current : ∀ n, isTemp n = false → w.disk.read n = replay (fun n => w₀.disk.read n) w.log n
  legal : Legal (fun n => w₀.disk.read n) w.log
  reading : ∀ j p k, (ls j).reading = some (p, k) → Known w₀ w p (some (w.disk.inodes k).file)
  got : ∀ j p b, (ls j).got = some (p, b) → ∃ m, Known w₀ w p (some ⟨b, m⟩)

section Told
variable {asked : FileOp → Prop} {w₀ w : Shared} {ls : Nat → Own} {i : Nat} {op : FileOp}
  {s' : State}

theorem Known.mono {w' : Shared} {n : String} {v : Option File} (h : Known w₀ w n v)
    (hl : w.log ⊆ w'.log) : Known w₀ w' n v :=
  h.imp id (hl ·)

theorem Since.log_subset {w' : Shared} (h : Since w w') : w.log ⊆ w'.log := by
  obtain ⟨new, hl, -⟩ := h
  rw [hl]
  exact List.subset_append_right _ _

/-- What a guarded call does to the log. -/
theorem log_of_does (hd : Does op (w, ls i) s') :
    s'.1.log = w.log ∨ (∃ p v, isTemp p = false ∧ op.Puts p v ∧ s'.1.log = .put p v :: w.log ∧
      s'.1.disk.read p = v) ∨
      ∃ p, isTemp p = false ∧ s'.1.log = .saw p (w.disk.read p) :: w.log := by
  have hsaw : ∀ path, (saw path (w, ls i)).1.log = w.log ∨
      (isTemp path = false ∧ (saw path (w, ls i)).1.log =
        .saw path (w.disk.read path) :: w.log) := by
    intro path
    cases hp : isTemp path with
    | true => exact Or.inl (by rw [saw, note_temp _ _ hp])
    | false => exact Or.inr ⟨rfl, by rw [saw, note_real _ _ hp]⟩
  cases hd with
  | @replaced t k path data mode hop hm hi =>
    have hread : w.disk.read t = some ⟨data, mode⟩ := by
      have he : w.disk.entries t = some k := hm.entry
      have hi' : w.disk.inodes k = ⟨⟨data, mode⟩, true⟩ := hi
      rw [Disk.read, he, Option.map_some, hi']
    refine Or.inr (Or.inl ⟨path.1, some ⟨data, mode⟩, path.2, ?_, ?_, ?_⟩)
    · rw [hop]
      exact ⟨rfl, rfl⟩
    · rw [replaced, note_real _ _ path.2]
      exact congrArg (Event.put path.1 · :: w.log) hread
    · rw [replaced, note_disk, ← hread]
      exact List.head_eq_of_cons_eq (Disk.may_rename (ne_of_isTemp hm.temp path.2).symm)
  | discarded hm =>
    refine Or.inl ?_
    rw [unlinked, note_temp _ _ hm.temp]
  | @removed path hop _ =>
    refine Or.inr (Or.inl ⟨path.1, none, path.2, ?_, ?_, ?_⟩)
    · rw [hop]
      exact ⟨rfl, rfl⟩
    · rw [unlinked, note_real _ _ path.2]
    · rw [unlinked, note_disk]
      exact List.head_eq_of_cons_eq Disk.may_unlink
  | @saw path => exact (hsaw path).imp id fun h => Or.inr ⟨path, h⟩
  | @opened path _ _ _ => exact (hsaw path).imp id fun h => Or.inr ⟨path, h⟩
  | _ => exact Or.inl rfl

/-- Any call of a guarded process whose operation was asked for. -/
theorem Told.does (h : Told asked w₀ w ls) (ho : Owned w ls) (hop : asked op)
    (hd : Does op (w, ls i) s') : Told asked w₀ s'.1 (Function.update ls i s'.2) := by
  have hsince := since_of_does ho hd
  have hmono := hsince.log_subset
  have hreading : ∀ j p k, (ls j).reading = some (p, k) →
      Known w₀ s'.1 p (some (s'.1.disk.inodes k).file) := by
    intro j p k hj
    obtain ⟨hlt, -, hne⟩ := ho.reading j p k hj
    rw [inodes_of_does hd hlt (hne i)]
    exact (h.reading j p k hj).mono hmono
  refine ⟨?_, ?_, ?_, ?_, ?_, ?_⟩
  · intro n v hv
    rcases log_of_does hd with hl | ⟨p, u, hp, hputs, hl, -⟩ | ⟨p, -, hl⟩ <;> rw [hl] at hv
    · exact h.asked n v hv
    · rcases List.mem_cons.1 hv with he | hv
      · cases he
        exact ⟨hp, op, hop, hputs⟩
      · exact h.asked n v hv
    · exact h.asked n v ((List.mem_cons.1 hv).resolve_left fun he => nomatch he)
  · intro n hn v hv
    obtain ⟨new, hl, hnew⟩ := hsince
    rcases (hnew n hn).1 v hv with hv | hv
    · exact (h.known n hn v hv).mono hmono
    · exact Or.inr (hl ▸ List.mem_append_left _ hv)
  · intro n hn
    obtain ⟨new, hl, hnew⟩ := hsince
    rcases log_of_does hd with hl' | ⟨p, u, hp, -, hl', hread⟩ | ⟨p, -, hl'⟩
    · have hnil : new = [] := List.append_left_eq_self.1 (hl.symm.trans hl')
      subst hnil
      rw [hl', ← h.current n hn]
      exact (hnew n hn).2.resolve_right (List.not_mem_nil)
    · have hput : new = [.put p u] :=
        List.append_cancel_right (hl.symm.trans hl' : new ++ w.log = [.put p u] ++ w.log)
      subst hput
      rw [hl', replay]
      by_cases hnp : n = p
      · rw [if_pos hnp, hnp, hread]
      · rw [if_neg hnp, ← h.current n hn]
        refine (hnew n hn).2.resolve_right fun hm => ?_
        have := List.mem_singleton.1 hm
        cases this
        exact hnp rfl
    · have hsaw : new = [.saw p (w.disk.read p)] :=
        List.append_cancel_right
          (hl.symm.trans hl' : new ++ w.log = [.saw p (w.disk.read p)] ++ w.log)
      subst hsaw
      rw [hl', replay, ← h.current n hn]
      exact (hnew n hn).2.resolve_right fun hm => nomatch List.mem_singleton.1 hm
  · rcases log_of_does hd with hl | ⟨p, u, -, -, hl, -⟩ | ⟨p, hp, hl⟩ <;> rw [hl]
    · exact h.legal
    · exact h.legal
    · exact ⟨h.current p hp, h.legal⟩
  · refine (Function.forall_update_iff ls fun _ l => ∀ p k, l.reading = some (p, k) →
      Known w₀ s'.1 p (some (s'.1.disk.inodes k).file)).2 ⟨?_, fun j _ => hreading j⟩
    have hkeep : s'.2.reading = (ls i).reading ∨ s'.2.reading = none ∨
        ∃ path k, s'.2.reading = some (path, k) ∧ isTemp path = false ∧
        w.disk.entries path = some k := by
      cases hd with
      | same _ hr _ => exact hr.imp id Or.inl
      | fill _ _ _ _ _ _ hr _ => exact Or.inl hr
      | @opened path k hp he => exact Or.inr (Or.inr ⟨path, k, rfl, hp, he⟩)
      | replaced => exact Or.inl (by simp [replaced])
      | discarded => exact Or.inl (by simp [unlinked])
      | removed => exact Or.inl (by simp [unlinked])
      | saw => exact Or.inl (by simp [saw])
      | _ => exact Or.inl rfl
    intro p k hk
    rcases hkeep with hr | hr | ⟨path, k', hr, hp, he⟩
    · exact hreading i p k (hr ▸ hk)
    · rw [hr] at hk
      cases hk
    · rw [hr, Option.some.injEq, Prod.mk.injEq] at hk
      obtain ⟨rfl, rfl⟩ := hk
      have href : w.disk.Refers path k' := List.mem_cons.2 (Or.inl he.symm)
      rw [inodes_of_does hd (ho.bound path k' href) fun t ht => ho.not_refers ht hp href]
      have hknown := h.known path hp _ (Disk.read_mem_may path w.disk)
      rw [Disk.read, he] at hknown
      exact hknown.mono hmono
  · refine (Function.forall_update_iff ls fun _ l => ∀ p b, l.got = some (p, b) → ∃ m,
      Known w₀ s'.1 p (some ⟨b, m⟩)).2 ⟨?_, fun j _ p b hj => ?_⟩
    · have hkeep : s'.2.got = (ls i).got ∨
          ∃ p k, (ls i).reading = some (p, k) ∧ s'.2.got =
            some (p, (w.disk.inodes k).file.data) := by
        cases hd with
        | same _ _ hg => exact Or.inl hg
        | fill _ _ _ _ _ _ _ hg => exact Or.inl hg
        | @got p k hr =>
          have hr' : (ls i).reading = some (p, k) := hr
          exact Or.inr ⟨p, k, hr', by rw [hr']; rfl⟩
        | replaced => exact Or.inl (by simp [replaced])
        | discarded => exact Or.inl (by simp [unlinked])
        | removed => exact Or.inl (by simp [unlinked])
        | saw => exact Or.inl (by simp [saw])
        | opened => exact Or.inl (by simp [opened, saw])
        | _ => exact Or.inl rfl
      intro p b hb
      rcases hkeep with hg | ⟨p', k, hr, hg⟩
      · obtain ⟨m, hm⟩ := h.got i p b (hg ▸ hb)
        exact ⟨m, hm.mono hmono⟩
      · rw [hg, Option.some.injEq, Prod.mk.injEq] at hb
        obtain ⟨rfl, rfl⟩ := hb
        exact ⟨(w.disk.inodes k).file.mode, (h.reading i p' k hr).mono hmono⟩
    · obtain ⟨m, hm⟩ := h.got j p b hj
      exact ⟨m, hm.mono hmono⟩

/-- A process is killed. -/
theorem Told.kill (h : Told asked w₀ w ls) :
    Told asked w₀ (Storage.kill (w, ls i)).1 (Function.update ls i (Storage.kill (w, ls i)).2) := by
  refine ⟨h.asked, h.known, h.current, h.legal, ?_, ?_⟩
  · exact (Function.forall_update_iff ls fun _ l => ∀ p k, l.reading = some (p, k) →
      Known w₀ w p (some (w.disk.inodes k).file)).2
      ⟨fun _ _ hk => (by cases hk), fun j _ => h.reading j⟩
  · exact (Function.forall_update_iff ls fun _ l => ∀ p b, l.got = some (p, b) → ∃ m,
      Known w₀ w p (some ⟨b, m⟩)).2 ⟨fun _ _ hk => (by cases hk), fun j _ => h.got j⟩

end Told

end Storage
end WebProxyPanel
