import WebProxyPanel.Global
/-!
# A secret that was handed out is never handed out again

`Issued` looks at every database committed so far. A free slot's secret, a staged one, and one just
drawn have never been issued (`NeverIssued`): a slot that leaves `assigned` becomes dirty and gets a
new secret before it is free again (pool.py:114-141).
-/

namespace WebProxyPanel
open Effects

/-- The value was the secret of an assigned slot. -/
def Issued (commits : List DB) (v : String) : Prop :=
  ∃ db ∈ commits, ∃ s ∈ db.slots, s.status = .assigned ∧ s.secret = v

/-- The random source never returns what has been the secret of a slot. -/
def Fresh (ok : Allow Action Choice State) : Prop :=
  ∀ (inp : Inputs) {β : Type} (a : Action β) (s : State), ok (.inputs inp) a s → ∀ v ∈ inp.tokens,
    ∀ db ∈ s.1.commits, ∀ slot ∈ db.slots, slot.secret ≠ v

structure NeverIssued (w : World) : Prop where
  latest : w.db ∈ w.commits
  free : ∀ s ∈ w.db.slots, s.status = .free → ¬ Issued w.commits s.secret
  pending : ∀ s ∈ w.db.slots, ∀ v, s.pendingSecret = some v → ¬ Issued w.commits v
  drawn : ∀ tx, w.writer = some tx → ∀ v ∈ tx.drawn, ¬ Issued w.commits v

section Step
variable {ok : Allow Action Choice State} {m : Mode} {w w' : World} {l l' : Own}

theorem Fresh.not_issued (hf : Fresh ok) {v : String} (h : Drawable ok w l v) :
    ¬ Issued w.commits v := by
  obtain ⟨inp, α, s, hok, hv⟩ := h
  rintro ⟨db, hdb, slot, hs, -, hsec⟩
  exact hf inp (.sql s) (w, l) hok v hv db hdb slot hs hsec

/-- Committed databases, and what was drawn, stay as they are. -/
theorem NeverIssued.same (h : NeverIssued w) (hdb : w'.db = w.db) (hc : w'.commits = w.commits)
    (hd : ∀ tx', w'.writer = some tx' → ∀ v ∈ tx'.drawn, ¬ Issued w.commits v) :
    NeverIssued w' where
  latest := by rw [hdb, hc]; exact h.latest
  free := by rw [hdb, hc]; exact h.free
  pending := by rw [hdb, hc]; exact h.pending
  drawn := by rw [hc]; exact hd

theorem issued_cons {db : DB} {commits : List DB} {v : String} :
    Issued (db :: commits) v ↔ (∃ s ∈ db.slots, s.status = .assigned ∧ s.secret = v) ∨
      Issued commits v := by
  simp only [Issued, List.mem_cons, exists_eq_or_imp]

/-- Two slots cannot share a secret, nor can one be pending and in use. -/
theorem Inv.secret_ne_pending {db : DB} (h : Inv db) {s s' : Slot} (hs : s ∈ db.slots)
    (hs' : s' ∈ db.slots) {v : String} (hv : s'.pendingSecret = some v) : s.secret ≠ v := by
  intro he
  have hdisj := (List.nodup_append.1 h.secrets).2.2
  exact hdisj s.secret (List.mem_map_of_mem hs) v (List.mem_filterMap.2 ⟨s', hs', hv⟩) he

/-- A COMMIT takes assigned secrets from free slots, and free ones from where nothing was issued. -/
theorem NeverIssued.commit (h : NeverIssued w) {tx : Tx} (hw : w.writer = some tx)
    (hinv : Inv tx.copy) (hs : SecretStep (· ∈ tx.drawn) w.db tx.copy) :
    NeverIssued (w.commit tx) where
  latest := by simp
  free := by
    intro s' hs' hst
    rw [World.commit_commits, issued_cons]
    rintro (⟨s, hm, hass, hsec⟩ | hi)
    · rw [Table.eq_of_key hinv.consistent.slotSecret hm hs' hsec, hst] at hass
      simp at hass
    · rcases hs.free s' hs' hst with ⟨s, hm, hfree, hsec⟩ | ⟨s, hm, hp⟩ | hd
      · exact h.free s hm hfree (hsec ▸ hi)
      · exact h.pending s hm _ hp hi
      · exact h.drawn tx hw _ hd hi
  pending := by
    intro s' hs' v hv
    rw [World.commit_commits, issued_cons]
    rintro (⟨s, hm, -, hsec⟩ | hi)
    · exact hinv.secret_ne_pending hm hs' hv hsec
    · rcases hs.pending s' hs' v hv with ⟨s, hm, hp⟩ | hd
      · exact h.pending s hm v hp hi
      · exact h.drawn tx hw v hd hi
  drawn := by simp

theorem NeverIssued.does (hf : Fresh ok) (h : NeverIssued w) (hd : Does ok m w l w' l') :
    NeverIssued w' := by
  cases hd with
  | nothing es => exact h
  | begin_ es _ _ =>
    refine h.same rfl rfl fun tx' htx => ?_
    obtain rfl := Option.some.inj htx
    simp
  | statements tx tx' es htx _ _ hdrawn =>
    refine h.same rfl rfl fun tx₁ htx₁ v hv => ?_
    obtain rfl := Option.some.inj htx₁
    rcases hdrawn v hv with hv | hv
    · exact h.drawn tx (inTx_of_ownTx htx).2 v hv
    · exact hf.not_issued hv
  | commit tx es htx hc _ => exact h.commit (inTx_of_ownTx htx).2 hc.inv hc.secrets
  | rollback tx es _ => exact h.same rfl rfl (by simp)
  | fwCall call fails done es _ _ =>
    refine h.same rfl rfl fun tx' htx => ?_
    obtain ⟨tx, hw, rfl⟩ := Option.map_eq_some_iff.1 htx
    exact h.drawn tx hw
  | replace ports blocked l₁ es _ _ _ => exact h.same rfl rfl h.drawn
  | file p data es _ _ => exact h.same rfl rfl h.drawn
  | units u es _ => exact h.same rfl rfl h.drawn
  | lock es _ _ => exact h.same rfl rfl h.drawn
  | unlock es _ _ => exact h.same rfl rfl h.drawn

theorem NeverIssued.crash (h : NeverIssued w) (l : Own) : NeverIssued (crash (w, l)).1 := by
  obtain ⟨hdb, -, -, -, hc⟩ := crash_db w l
  refine h.same hdb hc fun tx htx => h.drawn tx ?_
  unfold WebProxyPanel.crash at htx
  dsimp only at htx
  split at htx <;> split at htx <;> simp_all

/-- A slot that a step assigns to a device has a secret that was never issued. -/
theorem Does.unissued (h : NeverIssued w) (hd : Does ok m w l w' l') {s' : Slot}
    (hs' : s' ∈ w'.db.slots) (hst : s'.status = .assigned)
    (hnew : ¬ ∃ s ∈ w.db.slots, s.id = s'.id ∧ s.status = .assigned ∧ s.deviceId = s'.deviceId) :
    ¬ Issued w.commits s'.secret := by
  have hsame : w'.db = w.db → ¬ Issued w.commits s'.secret := fun hdb =>
    absurd ⟨s', hdb ▸ hs', rfl, hst, rfl⟩ hnew
  cases hd with
  | commit tx es htx hc _ =>
    rcases hc.secrets.assigned s' hs' hst with ⟨s, hs, hfree, hsec⟩ | ⟨s, hs, hass, hid, hdev, -⟩
    · rw [← hsec]
      exact h.free s hs hfree
    · exact absurd ⟨s, hs, hid, hass, hdev⟩ hnew
  | nothing es => exact hsame rfl
  | begin_ es _ _ => exact hsame rfl
  | statements tx tx' es _ _ _ _ => exact hsame rfl
  | rollback tx es _ => exact hsame rfl
  | fwCall call fails done es _ _ => exact hsame rfl
  | replace ports blocked l₁ es _ _ _ => exact hsame rfl
  | file p data es _ _ => exact hsame rfl
  | units u es _ => exact hsame rfl
  | lock es _ _ => exact hsame rfl
  | unlock es _ _ => exact hsame rfl

end Step

/-! ## Every order of steps -/

section Reached
variable {ok : Allow Action Choice State} {mayStop : Prop} {c c' : Procs}

theorem kept_neverIssued (hf : Fresh ok) : Kept ok mayStop fun w _ => NeverIssued w where
  does _ _ _ _ _ _ _ h hd := h.does hf hd
  stop _ _ _ _ _ h := h.crash _

theorem neverIssued_initial : NeverIssued World.initial where
  latest := by simp [World.initial]
  free := by simp [World.initial, DB.empty]
  pending := by simp [World.initial, DB.empty]
  drawn := by simp [World.initial]

theorem reached_neverIssued (hf : Fresh ok) (h : Reached ok mayStop c) : NeverIssued c.shared :=
  (good_of_reached (kept_neverIssued hf) neverIssued_initial h).global.2

/-- What was committed stays in the history. -/
theorem commits_of_reachable (hf : Fresh ok) (h : Reached ok mayStop c)
    (hr : system.Reachable ok mayStop c c') : c.shared.db ∈ c'.shared.commits := by
  induction hr with
  | refl => exact (reached_neverIssued hf h).latest
  | @tail c₁ c₂ hr hs ih =>
    obtain ⟨i, hs⟩ := hs
    have hgrow : ∀ {m : Mode} {w w' : World} {l l' : Own}, Does ok m w l w' l' →
        w.commits ⊆ w'.commits := by
      intro m w w' l l' hd
      cases hd <;> simp
    rcases reached_step (h.trans hr) hs with hsame | ⟨op, p, l', -, hd⟩ | hcrash
    · rw [hsame]
      exact ih
    · exact hgrow hd ih
    · rw [hcrash, (crash_db _ _).2.2.2.2]
      exact ih

end Reached

/-- When a step assigns a slot to a device, no slot with that secret was assigned in any database
committed before, in any run of any operations, with failures and stops anywhere. -/
theorem reached_secret_unissued (ok : Allow Action Choice State) (mayStop : Prop) (hf : Fresh ok)
    (c₀ c c' : Procs) (i : Nat) (h₀ : Reached ok mayStop c₀) (hr : system.Reachable ok mayStop c₀ c)
    (hs : system.Step ok mayStop i c c') (s' : Slot) (hs' : s' ∈ c'.shared.db.slots)
    (hst : s'.status = .assigned)
    (hnew : ¬ ∃ s ∈ c.shared.db.slots, s.id = s'.id ∧ s.status = .assigned ∧
      s.deviceId = s'.deviceId) :
    ∀ s ∈ c₀.shared.db.slots, s.status = .assigned → s.secret ≠ s'.secret := by
  intro s hs₀ hass hsec
  have h := h₀.trans hr
  have hissued : Issued c.shared.commits s'.secret :=
    ⟨_, commits_of_reachable hf h₀ hr, s, hs₀, hass, hsec⟩
  refine absurd hissued ?_
  have hsame : c'.shared.db = c.shared.db → ¬ Issued c.shared.commits s'.secret := fun hdb =>
    absurd ⟨s', hdb ▸ hs', rfl, hst, rfl⟩ hnew
  rcases reached_step h hs with heq | ⟨op, p, l', -, hd⟩ | hcrash
  · exact hsame (by rw [heq])
  · exact hd.unissued (reached_neverIssued hf h) hs' hst hnew
  · exact hsame (by rw [hcrash, (crash_db _ _).1])

/-- A random source that keeps to `Fresh`. -/
def freshTokens (c : Choice) {β : Type} (_ : Action β) (s : State) : Bool :=
  match c with
  | .inputs inp =>
    inp.tokens.all fun v => s.1.commits.all fun db => db.slots.all fun slot => slot.secret ≠ v
  | _ => true

theorem fresh_freshTokens : Fresh fun c {_} a s => freshTokens c a s = true := by
  intro inp β a s h v hv db hdb slot hslot
  have h := List.all_eq_true.1 (List.all_eq_true.1 (List.all_eq_true.1 h v hv) db hdb) slot hslot
  simpa using h

/-- `rotate_device` up to its COMMIT. -/
def rotateOnce : List Choice := succeed 4 ++ [.inputs ⟨[0], []⟩] ++ succeed 2

def rotation : List (Nat × System.Turn Op Choice) :=
  (0, .start (.rotateDevice 1)) :: rotateOnce.map fun c => (0, .act c)

/-- After the installation and a rotation the second slot is assigned, and was not before. -/
theorem rotation_runs : ((system.run freshTokens installation Procs.initial).bind fun c₀ =>
    (system.run freshTokens rotation c₀).bind fun c =>
      (system.turn freshTokens 0 (.act .ok) c).map fun c' =>
      (c'.shared.db.slots.any fun s => s.id = 2 && s.status = .assigned &&
        s.secret = sampleToken 1) &&
        c.shared.db.slots.all fun s => s.id ≠ 2 || s.status = .free) = some true := by
  decide +kernel

theorem reached_secret_unissued_rotation :
    ∃ c₀ : Procs, Reached (fun c {_} a s => freshTokens c a s = true) False c₀ ∧
    ∀ s ∈ c₀.shared.db.slots, s.status = .assigned → s.secret ≠ sampleToken 1 := by
  obtain ⟨c₀, h₀, hr⟩ := Option.bind_eq_some_iff.1 rotation_runs
  obtain ⟨c, hc, hr⟩ := Option.bind_eq_some_iff.1 hr
  obtain ⟨c', hc', hb⟩ := Option.map_eq_some_iff.1 hr
  rw [Bool.and_eq_true] at hb
  obtain ⟨s', hs', hp⟩ := List.any_eq_true.1 hb.1
  simp only [Bool.and_eq_true, decide_eq_true_eq] at hp
  have hfree := List.all_eq_true.1 hb.2
  refine ⟨c₀, System.reachable_of_run h₀, fun s hs hst => ?_⟩
  rw [← hp.2]
  refine reached_secret_unissued _ False fresh_freshTokens c₀ c c' 0 (System.reachable_of_run h₀)
    (System.reachable_of_run hc) (System.step_of_turn hc') s' hs' hp.1.2 ?_ s hs hst
  rintro ⟨s₁, hs₁, hid, hst₁, -⟩
  have := hfree s₁ hs₁
  simp [hid, hp.1.1, hst₁] at this

end WebProxyPanel
