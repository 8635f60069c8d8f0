import WebProxyPanel.StorageSteps
/-!
# Who owns which file

`Owned` holds in any run: no name of the program's own refers to a file that anybody still writes,
and a temporary file has one owner or is told of in `stray`.
-/

namespace WebProxyPanel
namespace Storage
open Effects Files

/-! ## Who owns which file -/

section Note
variable (path : String) (e : Event) (s : State)

@[simp] theorem note_disk : (note path e s).1.disk = s.1.disk := by unfold note; split <;> rfl
@[simp] theorem note_drawn : (note path e s).1.drawn = s.1.drawn := by unfold note; split <;> rfl
@[simp] theorem note_stray : (note path e s).1.stray = s.1.stray := by unfold note; split <;> rfl
@[simp] theorem note_own_temp : (note path e s).2.temp = s.2.temp := by unfold note; split <;> rfl
@[simp] theorem note_own_reading : (note path e s).2.reading = s.2.reading :=
  by unfold note; split <;> rfl
@[simp] theorem note_own_got : (note path e s).2.got = s.2.got := by unfold note; split <;> rfl

end Note

@[simp] theorem Own.forget_reading (path : String) (l : Own) :
    (l.forget path).reading = l.reading := rfl
@[simp] theorem Own.forget_got (path : String) (l : Own) : (l.forget path).got = l.got := rfl

theorem Own.forget_own {path : String} {i : Nat} {l : Own} (h : l.temp = some (path, i)) :
    (l.forget path).temp = none := by
  simp [Own.forget, h]

theorem Own.forget_none {path : String} {l : Own} (h : l.temp = none) :
    (l.forget path).temp = none := by
  simp [Own.forget, h]

structure Owned (w : Shared) (ls : Nat → Own) : Prop where
  bound : ∀ n i, w.disk.Refers n i → i < w.disk.next
  mine : ∀ j t i, (ls j).temp = some (t, i) → Mine t i w (ls j)
  alone : ∀ j t i, (ls j).temp = some (t, i) → ∀ n, w.disk.Refers n i → n = t
  apart : ∀ j k t i i', (ls j).temp = some (t, i) → (ls k).temp = some (t, i') → j = k
  whole : ∀ n i, isTemp n = false → w.disk.Refers n i → (w.disk.inodes i).synced = true
  reading : ∀ j p i, (ls j).reading = some (p, i) →
    i < w.disk.next ∧ (w.disk.inodes i).synced = true ∧ ∀ k t, (ls k).temp ≠ some (t, i)
  litter : ∀ t i, isTemp t = true → w.disk.Refers t i → t ∈ w.drawn ∨ t ∈ w.stray
  owned : ∀ t, isTemp t = true → w.disk.entries t ≠ none → t ∈ w.stray ∨ ∃ j i,
    (ls j).temp = some (t, i)

/-- A field that the change of one process leaves alone. -/
theorem field_update {γ : Type} (f : Own → γ) {ls : Nat → Own} {i : Nat} {l : Own}
    (h : f l = f (ls i)) (j : Nat) : f (Function.update ls i l j) = f (ls j) := by
  by_cases hj : j = i
  · rw [hj, Function.update_self, h]
  · rw [Function.update_of_ne hj]

section Owned
variable {w : Shared} {ls : Nat → Own} {i : Nat}

/-- No name of the program's own, nor a reader, has the file that a process still writes. -/
theorem Owned.not_refers (h : Owned w ls) {t n : String} {k : Nat} (hm : (ls i).temp = some (t, k))
    (hn : isTemp n = false) : ¬ w.disk.Refers n k := by
  intro hr
  have htemp := (h.mine i t k hm).temp
  rw [← h.alone i t k hm n hr, hn] at htemp
  cases htemp

/-- A step that leaves the disk alone. -/
theorem Owned.keep (h : Owned w ls) {w' : Shared} {l : Own} (hd : w'.disk = w.disk)
    (hdr : w'.drawn = w.drawn) (hs : w.stray ⊆ w'.stray) (ht : l.temp = (ls i).temp)
    (hr : ∀ p k, l.reading = some (p, k) → k < w.disk.next ∧ (w.disk.inodes k).synced = true ∧
      ∀ j t, (ls j).temp ≠ some (t, k)) :
    Owned w' (Function.update ls i l) := by
  have htemp : ∀ j, (Function.update ls i l j).temp = (ls j).temp := field_update Own.temp ht
  have hdisk : ∀ j t k, (ls j).temp = some (t, k) → isTemp t = true ∧ t ∈ w.drawn ∧
      w.disk.entries t = some k := fun j t k hj =>
    ⟨(h.mine j t k hj).temp, (h.mine j t k hj).drawn, (h.mine j t k hj).entry⟩
  refine ⟨?_, ?_, ?_, ?_, ?_, ?_, ?_, ?_⟩
  · rw [hd]
    exact h.bound
  · intro j t k hj
    rw [htemp] at hj
    obtain ⟨h₁, h₂, h₃⟩ := hdisk j t k hj
    exact ⟨(htemp j).trans hj, h₁, hdr ▸ h₂, hd ▸ h₃⟩
  · simpa only [htemp, hd] using h.alone
  · simpa only [htemp] using h.apart
  · rw [hd]
    exact h.whole
  · rw [hd]
    simp only [htemp]
    exact (Function.forall_update_iff ls fun _ l => ∀ p k, l.reading = some (p, k) →
      k < w.disk.next ∧
      (w.disk.inodes k).synced = true ∧ ∀ j t,
      (ls j).temp ≠ some (t, k)).2 ⟨hr, fun j _ => h.reading j⟩
  · intro t k ht' hk
    rw [hd] at hk
    rw [hdr]
    exact (h.litter t k ht' hk).imp id (hs ·)
  · intro t ht' he
    rw [hd] at he
    simp only [htemp]
    exact (h.owned t ht' he).imp (hs ·) id

/-- A write to the own temporary file. -/
theorem Owned.fill (h : Owned w ls) {t : String} {k : Nat} {d : Disk String} {l : Own}
    (hm : (ls i).temp = some (t, k)) (he : d.entries = w.disk.entries) (hp : d.past = w.disk.past)
    (hn : d.next = w.disk.next) (hi : ∀ j, j ≠ k → d.inodes j = w.disk.inodes j)
    (ht : l.temp = (ls i).temp) (hr : l.reading = (ls i).reading) :
    Owned { w with disk := d } (Function.update ls i l) := by
  have htemp : ∀ j, (Function.update ls i l j).temp = (ls j).temp := field_update Own.temp ht
  have hread : ∀ j, (Function.update ls i l j).reading = (ls j).reading :=
    field_update Own.reading hr
  have hrefers : ∀ n j, d.Refers n j ↔ w.disk.Refers n j := by
    intro n j
    unfold Disk.Refers
    rw [he, hp]
  refine ⟨?_, ?_, ?_, ?_, ?_, ?_, ?_, ?_⟩
  · intro n j hj
    rw [hrefers] at hj
    exact hn ▸ h.bound n j hj
  · intro j t' k' hj
    rw [htemp] at hj
    have hmine := h.mine j t' k' hj
    exact ⟨(htemp j).trans hj, hmine.temp, hmine.drawn, (congrFun he t').trans hmine.entry⟩
  · intro j t' k' hj n hn'
    rw [htemp] at hj
    exact h.alone j t' k' hj n ((hrefers n k').1 hn')
  · simpa only [htemp] using h.apart
  · intro n j hn' hj
    rw [hrefers] at hj
    have hne : j ≠ k := by
      rintro rfl
      exact h.not_refers hm hn' hj
    exact (congrArg Inode.synced (hi j hne)).trans (h.whole n j hn' hj)
  · intro j p k' hj
    rw [hread] at hj
    obtain ⟨h₁, h₂, h₃⟩ := h.reading j p k' hj
    have hne : k' ≠ k := by
      rintro rfl
      exact h₃ i t hm
    refine ⟨hn ▸ h₁, (congrArg Inode.synced (hi k' hne)).trans h₂, fun j' t' => ?_⟩
    rw [htemp]
    exact h₃ j' t'
  · intro t' j ht' hj
    exact h.litter t' j ht' ((hrefers t' j).1 hj)
  · intro t' ht' he'
    simp only [htemp]
    exact h.owned t' ht' fun hnone => he' ((congrFun he t').trans hnone)

/-- `mkstemp` -/
theorem Owned.made (h : Owned w ls) {path : String} (hnone : (ls i).temp = none)
    (ht : isTemp path = true) (hd : path ∉ w.drawn) (he : w.disk.entries path = none) :
    Owned (Storage.made path (w, ls i)).1
      (Function.update ls i (Storage.made path (w, ls i)).2) := by
  have hrefers : ∀ n j, (w.disk.create path 0o600).Refers n j → w.disk.Refers n j ∨
      (n = path ∧ j = w.disk.next) :=
    fun n j hj => Disk.refers_create hj
  have hentries : ∀ n, n ≠ path → (w.disk.create path 0o600).entries n = w.disk.entries n :=
    fun n hn => if_neg hn
  have hinodes : ∀ j, j < w.disk.next → (w.disk.create path 0o600).inodes j = w.disk.inodes j :=
    fun j hj =>
    if_neg hj.ne
  have hnew : ∀ n, ¬ w.disk.Refers n w.disk.next := fun n hn => (h.bound n _ hn).false
  have htemp : ∀ j t k, (Function.update ls i (Storage.made path (w, ls i)).2 j).temp =
      some (t, k) → (j = i ∧ t = path ∧ k = w.disk.next) ∨ (j ≠ i ∧ (ls j).temp = some (t, k)) := by
    intro j t k hj
    by_cases hji : j = i
    · subst hji
      rw [Function.update_self] at hj
      cases hj
      exact Or.inl ⟨rfl, rfl, rfl⟩
    · rw [Function.update_of_ne hji] at hj
      exact Or.inr ⟨hji, hj⟩
  have hother : ∀ j t k, (ls j).temp = some (t, k) → t ≠ path ∧ k < w.disk.next := by
    intro j t k hj
    refine ⟨?_, h.bound t k (List.mem_cons.2 (Or.inl (h.mine j t k hj).entry.symm))⟩
    rintro rfl
    exact hd (h.mine j t k hj).drawn
  refine ⟨?_, ?_, ?_, ?_, ?_, ?_, ?_, ?_⟩
  · intro n j hj
    rcases hrefers n j hj with hj | ⟨-, rfl⟩
    · exact (h.bound n j hj).trans (Nat.lt_succ_self _)
    · exact Nat.lt_succ_self _
  · refine (Function.forall_update_iff ls fun _ l => ∀ t k, l.temp = some (t, k) → Mine t k _ l).2
      ⟨?_, fun j _ t k hj => ?_⟩
    · rintro t k hj
      cases hj
      exact ⟨rfl, ht, List.mem_cons_self, if_pos rfl⟩
    · have hm := h.mine j t k hj
      exact ⟨hj, hm.temp, List.mem_cons_of_mem _ hm.drawn,
        (hentries t (hother j t k hj).1).trans hm.entry⟩
  · refine (Function.forall_update_iff ls fun _ l => ∀ t k, l.temp = some (t, k) → ∀ n,
      Disk.Refers _ n k → n = t).2 ⟨?_, fun j _ t k hj n hn => ?_⟩
    · rintro t k hj n hn
      cases hj
      exact ((hrefers n _ hn).resolve_left (hnew n)).1
    · rcases hrefers n k hn with hn | ⟨-, rfl⟩
      · exact h.alone j t k hj n hn
      · exact absurd (hother j t _ hj).2 (Nat.lt_irrefl _)
  · intro j j' t k k' hj hj'
    rcases htemp j t k hj with ⟨hji, hp, -⟩ | ⟨-, hj⟩ <;>
        rcases htemp j' t k' hj' with ⟨hji', hp', -⟩ | ⟨-, hj'⟩
    · exact hji.trans hji'.symm
    · exact absurd hp (hother j' t k' hj').1
    · exact absurd hp' (hother j t k hj).1
    · exact h.apart j j' t k k' hj hj'
  · intro n j hn hj
    rcases hrefers n j hj with hj | ⟨rfl, -⟩
    · exact (congrArg Inode.synced (hinodes j (h.bound n j hj))).trans (h.whole n j hn hj)
    · rw [ht] at hn
      cases hn
  · have hread : ∀ j, (Function.update ls i (Storage.made path (w, ls i)).2 j).reading =
        (ls j).reading :=
      field_update Own.reading rfl
    intro j p k hj
    rw [hread] at hj
    obtain ⟨h₁, h₂, h₃⟩ := h.reading j p k hj
    refine ⟨h₁.trans (Nat.lt_succ_self _), (congrArg Inode.synced (hinodes k h₁)).trans h₂,
      fun j' t hjt => ?_⟩
    rcases htemp j' t k hjt with ⟨-, -, rfl⟩ | ⟨-, hjt⟩
    · exact absurd h₁ (Nat.lt_irrefl _)
    · exact h₃ j' t hjt
  · intro t k ht' hk
    rcases hrefers t k hk with hk | ⟨rfl, -⟩
    · exact (h.litter t k ht' hk).imp (List.mem_cons_of_mem _) id
    · exact Or.inl List.mem_cons_self
  · intro t ht' he'
    by_cases htp : t = path
    · subst htp
      refine Or.inr ⟨i, w.disk.next, ?_⟩
      rw [Function.update_self]
      rfl
    · have he'' : w.disk.entries t ≠ none := fun hn => he' ((hentries t htp).trans hn)
      refine (h.owned t ht' he'').imp id ?_
      rintro ⟨j, k, hj⟩
      have hji : j ≠ i := by
        rintro rfl
        rw [hnone] at hj
        cases hj
      exact ⟨j, k, by rwa [Function.update_of_ne hji]⟩

/-- The process has no temporary file any more. It has become another name's if it is synced, is
removed, or stays behind. -/
theorem Owned.drop (h : Owned w ls) {d : Disk String} {w' : Shared} {l : Own} (hd : w'.disk = d)
    (hdr : w'.drawn = w.drawn) (hst : w.stray ⊆ w'.stray)
    (hrefers : ∀ n j, d.Refers n j → w.disk.Refers n j ∨
      (isTemp n = false ∧ (w.disk.inodes j).synced = true ∧ ∃ t, (ls i).temp = some (t, j)))
    (hentries : ∀ t j, isTemp t = true → (ls j).temp.map Prod.fst = some t → j ≠ i →
      d.entries t = w.disk.entries t)
    (hfewer : ∀ t, isTemp t = true → d.entries t ≠ none → w.disk.entries t ≠ none ∧
      ((ls i).temp.map Prod.fst = some t → t ∈ w'.stray))
    (hinodes : d.inodes = w.disk.inodes) (hnext : d.next = w.disk.next) (ht : l.temp = none)
    (hr : l.reading = (ls i).reading ∨ l.reading = none) : Owned w' (Function.update ls i l) := by
  have hold : ∀ j t k, (Function.update ls i l j).temp = some (t, k) →
      j ≠ i ∧ (ls j).temp = some (t, k) := by
    intro j t k hj
    by_cases hji : j = i
    · subst hji
      rw [Function.update_self, ht] at hj
      cases hj
    · rw [Function.update_of_ne hji] at hj
      exact ⟨hji, hj⟩
  have hread : ∀ j p k, (Function.update ls i l j).reading = some (p, k) →
      (ls j).reading = some (p, k) := by
    refine (Function.forall_update_iff ls fun j l => ∀ p k, l.reading = some (p, k) →
      (ls j).reading = some (p, k)).2 ⟨fun p k hk => ?_, fun _ _ _ _ hk => hk⟩
    rcases hr with hr | hr
    · exact hr ▸ hk
    · rw [hr] at hk
      cases hk
  subst hd
  refine ⟨?_, ?_, ?_, ?_, ?_, ?_, ?_, ?_⟩
  · intro n j hj
    rw [hnext]
    rcases hrefers n j hj with hj | ⟨-, -, t, hj⟩
    · exact h.bound n j hj
    · exact h.bound t j (List.mem_cons.2 (Or.inl (h.mine i t j hj).entry.symm))
  · intro j t k hj
    obtain ⟨hji, hj'⟩ := hold j t k hj
    have hm := h.mine j t k hj'
    exact ⟨hj, hm.temp, hdr ▸ hm.drawn,
      (hentries t j hm.temp (by rw [hj']; rfl) hji).trans hm.entry⟩
  · intro j t k hj n hn
    obtain ⟨hji, hj'⟩ := hold j t k hj
    rcases hrefers n k hn with hn | ⟨-, -, t', hi⟩
    · exact h.alone j t k hj' n hn
    · -- two processes would have the same file, hence the same name
      have htt := h.alone j t k hj' t' (List.mem_cons.2 (Or.inl (h.mine i t' k hi).entry.symm))
      exact absurd (h.apart j i t k k hj' (htt ▸ hi)) hji
  · intro j j' t k k' hj hj'
    exact h.apart j j' t k k' (hold j t k hj).2 (hold j' t k' hj').2
  · intro n j hn hj
    rw [hinodes]
    rcases hrefers n j hj with hj | ⟨-, hs, -⟩
    · exact h.whole n j hn hj
    · exact hs
  · intro j p k hj
    obtain ⟨h₁, h₂, h₃⟩ := h.reading j p k (hread j p k hj)
    rw [hinodes, hnext]
    exact ⟨h₁, h₂, fun j' t hj' => h₃ j' t (hold j' t k hj').2⟩
  · intro t k ht' hk
    rw [hdr]
    rcases hrefers t k hk with hk | ⟨hf, -⟩
    · exact (h.litter t k ht' hk).imp id (hst ·)
    · rw [ht'] at hf
      cases hf
  · intro t ht' he
    obtain ⟨he', hown⟩ := hfewer t ht' he
    rcases h.owned t ht' he' with hs | ⟨j, k, hj⟩
    · exact Or.inl (hst hs)
    · by_cases hji : j = i
      · subst hji
        exact Or.inl (hown (by rw [hj]; rfl))
      · exact Or.inr ⟨j, k, by rwa [Function.update_of_ne hji]⟩

/-- `os.unlink` of the own temporary file, or of a file of the program's own -/
theorem Owned.unlink (h : Owned w ls) {path : String}
    (hp : (∃ k, (ls i).temp = some (path, k)) ∨ ((ls i).temp = none ∧ isTemp path = false)) :
    Owned (unlinked path (w, ls i)).1 (Function.update ls i (unlinked path (w, ls i)).2) := by
  have htemp : (unlinked path (w, ls i)).2.temp = none := by
    rcases hp with ⟨k, hk⟩ | ⟨hn, -⟩
    · simp [unlinked, Own.forget_own hk]
    · simp [unlinked, Own.forget_none hn]
  have hne : ∀ t, t ≠ path → (w.disk.unlink path).entries t = w.disk.entries t :=
    fun t ht => if_neg ht
  refine h.drop (d := w.disk.unlink path) (by simp [unlinked]) (by simp [unlinked])
    (by simp [unlinked])
    (fun n j hj => Or.inl (Disk.refers_unlink hj)) (fun t j ht hj hji => hne t ?_)
    (fun t ht he => ?_) rfl rfl htemp
    (Or.inl (by simp [unlinked]))
  · rintro rfl
    rcases hp with ⟨k, hk⟩ | ⟨-, hreal⟩
    · obtain ⟨⟨t', k'⟩, hk', rfl⟩ := Option.map_eq_some_iff.1 hj
      exact hji (h.apart j i t' k' k hk' hk)
    · rw [ht] at hreal
      cases hreal
  · have htp : t ≠ path := by
      rintro rfl
      exact he (if_pos rfl)
    refine ⟨fun hn => he ((hne t htp).trans hn), fun ho => ?_⟩
    rcases hp with ⟨k, hk⟩ | ⟨hn, -⟩
    · rw [hk] at ho
      exact absurd (Option.some.inj ho).symm htp
    · rw [hn] at ho
      cases ho

/-- `os.replace` with the own temporary file -/
theorem Owned.replace (h : Owned w ls) {t path : String} {k : Nat} (hm : (ls i).temp = some (t, k))
    (hp : isTemp path = false) (hs : (w.disk.inodes k).synced = true) :
    Owned (replaced t path (w, ls i)).1 (Function.update ls i (replaced t path (w, ls i)).2) := by
  have hmine := h.mine i t k hm
  have hne : ∀ n, n ≠ t → n ≠ path → (w.disk.rename t path).entries n = w.disk.entries n :=
    fun n => Disk.rename_entries_ne
  have hreal : ∀ n, isTemp n = true → n ≠ path := by
    rintro n hn rfl
    rw [hn] at hp
    cases hp
  refine h.drop (d := w.disk.rename t path) (by simp [replaced]) (by simp [replaced])
    (by simp [replaced])
    (fun n j hj => ?_) (fun n j hn hj hji => hne n ?_ (hreal n hn)) (fun n hn he => ?_) rfl rfl
    (by simp [replaced, Own.forget_own hm]) (Or.inl (by simp [replaced]))
  · rcases Disk.refers_rename hj with hj | ⟨rfl, he⟩
    · exact Or.inl hj
    · rw [hmine.entry, Option.some.injEq] at he
      subst he
      exact Or.inr ⟨hp, hs, t, hm⟩
  · rintro rfl
    obtain ⟨⟨t', k'⟩, hk', rfl⟩ := Option.map_eq_some_iff.1 hj
    exact hji (h.apart j i t' k' k hk' hm)
  · have hnt : n ≠ t := by
      rintro rfl
      exact he (Disk.rename_entries_src (hreal n hn))
    refine ⟨fun hnone => he ((hne n hnt (hreal n hn)).trans hnone), fun ho => ?_⟩
    rw [hm] at ho
    exact absurd (Option.some.inj ho).symm hnt

/-- The own temporary file stays behind. -/
theorem Owned.leave (h : Owned w ls) {path : String}
    (hp : ∀ t k, (ls i).temp = some (t, k) → t = path) :
    Owned (Storage.leave path (w, ls i)).1
      (Function.update ls i (Storage.leave path (w, ls i)).2) := by
  refine h.drop (d := w.disk) rfl rfl (List.subset_cons_self _ _) (fun n j hj => Or.inl hj)
    (fun _ _ _ _ _ => rfl) (fun t _ he => ⟨he, fun ho => ?_⟩) rfl rfl ?_ (Or.inl rfl)
  · obtain ⟨⟨t', k⟩, hk, rfl⟩ := Option.map_eq_some_iff.1 ho
    rw [hp t' k hk]
    exact List.mem_cons_self
  · cases hl : (ls i).temp with
    | none => exact Own.forget_none hl
    | some tk =>
      obtain rfl := hp tk.1 tk.2 hl
      exact Own.forget_own hl

/-- `fsync` of a directory -/
theorem Owned.settle (h : Owned w ls) (here : String → Bool) :
    Owned { w with disk := w.disk.syncDir here } (Function.update ls i (ls i)) := by
  rw [Function.update_eq_self]
  refine ⟨fun n k hk => h.bound n k (Disk.refers_syncDir hk), fun j t k hj => ?_,
    fun j t k hj n hn => ?_, h.apart,
    fun n k hn hk => h.whole n k hn (Disk.refers_syncDir hk), h.reading,
    fun t k ht hk => h.litter t k ht (Disk.refers_syncDir hk), h.owned⟩
  · have hm := h.mine j t k hj
    exact ⟨hj, hm.temp, hm.drawn, hm.entry⟩
  · exact h.alone j t k hj n (Disk.refers_syncDir hn)

/-- Any call of a guarded process. -/
theorem Owned.does (h : Owned w ls) {op : FileOp} {s' : State} (hd : Does op (w, ls i) s') :
    Owned s'.1 (Function.update ls i s'.2) := by
  have hsame : ∀ p k, (ls i).reading = some (p, k) → k < w.disk.next ∧
      (w.disk.inodes k).synced = true ∧ ∀ j t, (ls j).temp ≠ some (t, k) := h.reading i
  cases hd with
  | same ht hr _ =>
    refine h.keep rfl rfl (List.Subset.refl _) ht fun p k hk => ?_
    rcases hr with hr | hr
    · exact hsame p k (hr ▸ hk)
    · rw [hr] at hk
      cases hk
  | fill hm he hp hn hi ht hr _ => exact h.fill hm.own he hp hn hi ht hr
  | made hnone ht hd he => exact h.made hnone ht hd he
  | @lost path hnone ht hd he =>
    have hmade := h.made hnone ht hd he
    have hown : ∀ t k, (Function.update ls i (Storage.made path (w, ls i)).2 i).temp = some (t, k) →
        t = path := by
      rintro t k hk
      rw [Function.update_self] at hk
      cases hk
      rfl
    have hleave := hmade.leave hown
    rw [Function.update_self, Function.update_idem] at hleave
    exact hleave
  | @replaced t i path data mode _ hm hi =>
    exact h.replace hm.own path.2 (congrArg Inode.synced hi)
  | discarded hm => exact h.unlink (Or.inl ⟨_, hm.own⟩)
  | @removed path _ hn => exact h.unlink (Or.inr ⟨hn, path.2⟩)
  | left hm =>
    refine h.leave fun t k hk => ?_
    rw [hm.own] at hk
    cases hk
    rfl
  | strayed hn =>
    refine h.leave fun t k hk => ?_
    rw [hn] at hk
    cases hk
  | settled => exact h.settle _
  | saw =>
    exact h.keep (by simp [saw]) (by simp [saw]) (by simp [saw]) (by simp [saw])
      (by simpa [saw] using hsame)
  | @opened path k hp he =>
    refine h.keep (by simp [opened, saw]) (by simp [opened, saw]) (by simp [opened, saw])
      (by simp [opened, saw]) ?_
    rintro p k' hk
    cases hk
    have hr : w.disk.Refers path k := List.mem_cons.2 (Or.inl he.symm)
    exact ⟨h.bound path k hr, h.whole path k hp hr, fun j t hj => h.not_refers hj hp hr⟩
  | got _ => exact h.keep rfl rfl (List.Subset.refl _) rfl hsame

/-- A process is killed. -/
theorem Owned.kill (h : Owned w ls) :
    Owned (Storage.kill (w, ls i)).1 (Function.update ls i (Storage.kill (w, ls i)).2) := by
  refine h.drop (d := w.disk) rfl rfl (List.subset_append_right _ _) (fun n j hj => Or.inl hj)
    (fun _ _ _ _ _ => rfl) (fun t _ he => ⟨he, fun ho => ?_⟩) rfl rfl rfl (Or.inr rfl)
  rw [Storage.kill, ho]
  exact List.mem_cons_self

end Owned

end Storage
end WebProxyPanel
