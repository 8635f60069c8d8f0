import WebProxyPanel.EnabledState
/-!
# Manual bans

A ban by `disable_user(u, "manual")` lasts until `enable_user(u)`, if the call has stored its
reason. It does not when the user was already disabled for another reason: `disable_user` then
returns early, the old reason stays, and the setter for that reason lets the user in again.
-/

namespace WebProxyPanel
open Table Effects Users

/-- The user is there, disabled, with the reason that no setter removes. -/
def Banned (userId : Int) (db : DB) : Prop :=
  ∃ u ∈ db.users, u.id = userId ∧ u.enabled = 0 ∧ u.disabledReason = some .manual

/-- The operations that end a ban. -/
def EndsBan (userId : Int) (op : Op) : Prop := op = .enableUser userId ∨ op = .deleteUser userId

section Bans
variable {T : Int → Prop} {op : Op} {calls : List FwCall} {db db' : DB} {ids : Ids}

/-- A user stays in the table until `delete_user`. -/
theorem Effect.user_kept (h : Effect T db db' op ids calls) {u : User} (hu : u ∈ db.users) :
    op = .deleteUser u.id ∨ u.id ∈ db'.users.map (·.id) := by
  have hm : u.id ∈ db.users.map (·.id) := List.mem_map_of_mem hu
  have hset : ∀ {f : User → User} {userId : Int},
      db'.users = update (fun u => decide (u.id = userId)) f db.users →
      (∀ u, (f u).id = u.id) → u.id ∈ db'.users.map (·.id) := by
    intro f userId husers hf
    rw [husers, ids_update hf]
    exact hm
  have hsetter : ∀ {f : User → User} {userId : Int} {enableNow : Bool} {reason : Reason},
      Setter T enableNow reason f userId db db' calls → (∀ u, (f u).id = u.id) →
      u.id ∈ db'.users.map (·.id) := by
    intro f userId enableNow reason hs hf
    cases hs with
    | reenabled _ _ _ _ husers _ => exact hset (f := fun u => setEnabled (f u)) husers hf
    | changed _ _ _ husers _ => exact hset husers hf
  cases h with
  | createUser _ _ _ _ _ _ husers _ =>
    right
    rw [husers, List.map_append]
    exact List.mem_append_left _ hm
  | addDevice _ _ _ _ _ husers _ => exact .inr (husers ▸ hm)
  | deleteDevice _ _ husers _ => exact .inr (husers ▸ hm)
  | rotateDevice _ _ _ _ _ husers _ => exact .inr (husers ▸ hm)
  | renameDevice husers _ => exact .inr (husers ▸ hm)
  | disableUser _ _ _ _ husers _ => exact .inr (hset husers fun _ => rfl)
  | wasDisabled _ _ _ husers _ => exact .inr (husers ▸ hm)
  | enableUser _ _ _ husers _ => exact .inr (hset husers fun _ => rfl)
  | wasEnabled _ _ _ husers _ => exact .inr (husers ▸ hm)
  | setExpiry hs => exact .inr (hsetter hs fun _ => rfl)
  | extend _ _ _ _ hs => exact .inr (hsetter hs fun _ => rfl)
  | setTrafficLimit _ hs => exact .inr (hsetter hs fun _ => rfl)
  | updateProfile husers _ =>
    right
    have hids : db'.users.map (·.id) = db.users.map (·.id) := by
      simpa [Function.comp_def, User.standing] using congrArg (List.map Standing.id) husers
    rwa [hids]
  | @deleteUser userId _ _ _ husers _ =>
    by_cases hid : u.id = userId
    · exact .inl (by rw [hid])
    · right
      rw [husers]
      exact List.mem_map_of_mem (mem_delete.2 ⟨hu, by simpa using hid⟩)

/-- No operation but these two ends a ban. -/
theorem Banned.move {userId : Int} (hc : db.Consistent) (h : Banned userId db)
    (heffect : Effect T db db' op ids calls) (hop : ¬ EndsBan userId op) : Banned userId db' := by
  obtain ⟨u, hu, rfl, h0, hreason⟩ := h
  obtain ⟨hop, hdel⟩ := not_or.1 hop
  obtain ⟨u', hu', hid'⟩ := List.mem_map.1 ((heffect.user_kept hu).resolve_left hdel)
  rcases heffect.move hc hu' with ⟨hnew, -, -⟩ | ⟨v, hv, hvid, hmove⟩
  · exact absurd (hid' ▸ List.mem_map_of_mem hu) hnew
  obtain rfl : v = u := eq_of_key hc.userId hv hu (hvid.symm.trans hid')
  refine ⟨u', hu', hid', ?_⟩
  cases hmove with
  | same hen hr => exact ⟨hen.trans h0, hr.trans hreason⟩
  | off _ _ hen _ _ _ => exact absurd h0 hen
  | on hon _ _ _ _ => exact absurd hon hop
  | back hmay _ _ _ _ _ _ _ =>
    rcases hmay with ⟨-, hr⟩ | ⟨-, hr⟩
    · rw [hreason] at hr
      simp at hr
    · rw [hreason] at hr
      simp at hr

end Bans

section Runs
variable {ok : Allow Action Choice State} {w w' : World}

theorem Banned.course {userId : Int} (hw : Resting w) (h : Banned userId w.db)
    (hs : Course ok (fun op => ¬ EndsBan userId op) w w') : Banned userId w'.db := by
  induction hs with
  | refl => exact h
  | tail op n out l hc hop hr ih =>
    have hrest := hc.resting hw
    rcases runs_moved (clocked_any ok) hrest hr with hp | ⟨-, -, ids, hleaves⟩
    · obtain ⟨u, hu, hb⟩ := ih
      exact ⟨u, hp.users ▸ hu, hb⟩
    · exact ih.move hrest.world.1.consistent hleaves.1 hop

/-- The call that bans stores its reason, unless another one is stored. -/
theorem banned_of_runs (hw : Resting w) {u : User} (hu : u ∈ w.db.users)
    (hstate : u.enabled ≠ 0 ∨ u.disabledReason = some .manual) {n : Nat} {l : Own}
    (hr : sem.Runs ok (Op.disableUser u.id "manual").program (w, Own.idle n) (.ok ()) (w', l)) :
    Banned u.id w'.db := by
  obtain ⟨ids, heffect, -⟩ := runs_effect (clocked_any ok) rfl hr
  generalize firewallCalls l.trace = calls at heffect
  have hkey := hw.world.1.consistent.userId
  cases heffect with
  | @disableUser _ _ reason v hreason hv hvid _ husers _ =>
    obtain rfl : reason = .manual := by simpa [reasonOf] using hreason.symm
    refine ⟨setDisabled .manual u, ?_, rfl, rfl, rfl⟩
    rw [husers]
    exact mem_update.2 ⟨u, hu, by simp⟩
  | @wasDisabled _ _ v hv hvid h0 husers _ =>
    obtain rfl : v = u := eq_of_key hkey hv hu hvid
    exact ⟨v, husers ▸ hu, rfl, h0, hstate.resolve_left (not_not.2 h0)⟩

end Runs

/-- Once `disable_user(u, "manual")` has returned for a user who was enabled, or disabled for this
reason, no run of operations enables the user again, unless `enable_user(u)` or `delete_user(u)` is
among them. -/
theorem manualBan_lasts (ok : Allow Action Choice State) (w w₁ w₂ : World) (hw : Resting w)
    (u : User) (hu : u ∈ w.db.users) (hstate : u.enabled ≠ 0 ∨ u.disabledReason = some .manual)
    (n : Nat) (l : Own)
    (hban : sem.Runs ok (Op.disableUser u.id "manual").program (w, Own.idle n) (.ok ()) (w₁, l))
    (hrun : Course ok (fun op => ¬ EndsBan u.id op) w₁ w₂) :
    (∃ v ∈ w₂.db.users, v.id = u.id) ∧ ∀ v ∈ w₂.db.users, v.id = u.id → v.enabled = 0 := by
  have hrest := (resting_runs hw hban).1
  obtain ⟨v, hv, hvid, h0, -⟩ := (banned_of_runs hw hu hstate hban).course hrest hrun
  have hkey := (hrun.resting hrest).world.1.consistent.userId
  refine ⟨⟨v, hv, hvid⟩, fun v' hv' hvid' => ?_⟩
  rw [eq_of_key hkey hv' hv (hvid'.trans hvid.symm), h0]

theorem banSample_runs :
    ((sem.play anything switchOnce (Op.disableUser 1 "manual").program
      (World.sample, Own.idle 0)).bind fun x =>
      (playOps anything [(.setExpiry 1 none true,
        succeed 4 ++ [.inputs ⟨[0], []⟩, .inputs ⟨[], []⟩] ++ succeed 1)] x.2.1).map fun _ =>
        (x.1.outcome?, World.sample.db.users.map fun u => (u.id, u.enabled))) =
          some (some (.ok ()), [(1, 1)]) := by decide +kernel

theorem manualBan_lasts_sample : ∃ w₂ : World, ∀ v ∈ w₂.db.users, v.id = 1 → v.enabled = 0 := by
  obtain ⟨⟨p, w₁, l⟩, hplay, hr⟩ := Option.bind_eq_some_iff.1 banSample_runs
  obtain ⟨w₂, hafter, hr⟩ := Option.map_eq_some_iff.1 hr
  obtain ⟨hout, hbefore⟩ : p.outcome? = some (.ok ()) ∧
      World.sample.db.users.map (fun u => (u.id, u.enabled)) = [(1, 1)] := by
    simpa using hr
  have hout := Prog.outcome?_eq_some.1 hout
  subst hout
  obtain ⟨u, hu, h⟩ : ∃ u ∈ World.sample.db.users, (u.id, u.enabled) = (1, 1) :=
    List.mem_map.1 (by rw [hbefore]; simp)
  obtain ⟨hid, h1⟩ := Prod.mk.inj h
  have hrun : Course (fun c {_} a s => anything c a s = true) (fun op => ¬ EndsBan u.id op) w₁ w₂ :=
    course_of_playOps (by simp [EndsBan]) hafter
  have hlasts := manualBan_lasts _ World.sample w₁ w₂ (sequence_sample.resting resting_initial) u hu
      (.inl (by simp [h1])) 0 l
    (by rw [hid]; exact Sem.Steps.of_play hplay) hrun
  exact ⟨w₂, fun v hv hvid => hlasts.2 v hv (hvid.trans hid.symm)⟩

theorem banOfExpired_plays :
    ((playOps anything (sampleSetup ++ [(.disableUser 1 "expired", switchOnce)]) World.initial).bind
      fun w =>
      (sem.play anything (succeed 4 ++ [.inputs ⟨[], []⟩] ++ succeed 1)
        (Op.disableUser 1 "manual").program (w, Own.idle 0)).bind
        fun x => (playOps anything [(.setExpiry 1 none true,
          succeed 4 ++ [.inputs ⟨[0], []⟩, .inputs ⟨[0, 0], []⟩] ++ succeed 2)] x.2.1).map fun w₂ =>
            (w.db.users.map (·.id), x.1.outcome?, w₂.db.users.map fun u => (u.id, u.enabled))) =
        some ([1], some (.ok ()), [(1, 1)]) := by decide +kernel

/-- The ban of a user who was disabled as expired does not last. -/
theorem manualBan_early_return :
    ∃ w w₁ w₂ : World, Sequence (fun c {_} a s => anything c a s = true) World.initial w ∧
    ∃ u ∈ w.db.users, (∃ l, sem.Runs (fun c {_} a s => anything c a s = true)
      (Op.disableUser u.id "manual").program
      (w, Own.idle 0) (.ok ()) (w₁, l)) ∧
    Course (fun c {_} a s => anything c a s = true)
      (fun op => op = .setExpiry u.id none true) w₁ w₂ ∧
    ∃ v ∈ w₂.db.users, v.id = u.id ∧ v.enabled = 1 := by
  obtain ⟨w, hsetup, hr⟩ := Option.bind_eq_some_iff.1 banOfExpired_plays
  obtain ⟨⟨p, w₁, l⟩, hplay, hr⟩ := Option.bind_eq_some_iff.1 hr
  obtain ⟨w₂, hafter, hr⟩ := Option.map_eq_some_iff.1 hr
  obtain ⟨hbefore, hout, hlast⟩ : w.db.users.map (·.id) = [1] ∧
      p.outcome? = some (.ok ()) ∧ w₂.db.users.map (fun u => (u.id, u.enabled)) = [(1, 1)] := by
        simpa using hr
  have hout := Prog.outcome?_eq_some.1 hout
  subst hout
  obtain ⟨u, hu, hid⟩ : ∃ u ∈ w.db.users, u.id = 1 := List.mem_map.1 (by rw [hbefore]; simp)
  obtain ⟨v, hv, h'⟩ : ∃ v ∈ w₂.db.users, (v.id, v.enabled) = (1, 1) :=
    List.mem_map.1 (by rw [hlast]; simp)
  obtain ⟨hid', h1⟩ := Prod.mk.inj h'
  refine ⟨w, w₁, w₂, (course_of_playOps (P := fun _ => True) (fun _ _ => trivial) hsetup).sequence,
    u, hu, ⟨l, ?_⟩, ?_, v, hv, ?_, h1⟩
  · rw [hid]
    exact Sem.Steps.of_play hplay
  · rw [hid]
    exact course_of_playOps (by simp) hafter
  · rw [hid', hid]

end WebProxyPanel
