import WebProxyPanel.Served
import WebProxyPanel.Window
/-!
# Recovery after a stop

`maintain` starts by discarding what an interrupted call has staged in the database. Units that it
enabled and a `profiles.json` that it wrote stay, unless the new call enables or writes the same.

* `Recovered` — what the next call should leave; `Recoverable` — from which states it does.
-/

namespace WebProxyPanel
open Table Effects

variable {db db' : DB}

/-! ## Rendering and committing -/

theorem profile_committed (h : Inv db) (limits : Dict) {s : Slot} (hs : s ∈ db.slots) :
    s.committed.profile limits = s.profile limits := by
  cases hv : s.pendingSecret with
  | none => rw [Slot.committed_none hv]
  | some v =>
    rw [h.committed_some hs hv]
    unfold Slot.profile
    rw [h.renderedSecret_some hs hv]
    rfl

/-- The rendering already has the secrets that the commit puts into place. -/
theorem renderProfiles_committed (h : Inv db) (limits : Dict) :
    renderProfiles limits (committed db) = renderProfiles limits db := by
  have hport : ∀ s : Slot, s.committed.port = s.port := by
    intro s
    unfold Slot.committed
    split
    · exact (Slot.commitPending_same s).2.2.2.1
    · rfl
  show (orderBy (·.port) (db.slots.map Slot.committed)).map _ = _
  rw [orderBy_map, List.map_map]
  simp only [hport]
  exact List.map_congr_left fun s hs => profile_committed h limits (mem_orderBy.1 hs)

/-! ## Recovery -/

/-- The enabled units are those of the active shards, and `profiles.json` is the rendering of the
committed rows. -/
structure Recovered (sizing : Sizing) (w : World) : Prop where
  units : w.units = activeIds w.db
  profiles : w.files .profiles = some (.profiles (renderProfiles sizing.profileLimits w.db))

/-- The shards that a call adds. -/
def addedIds (growShards : Option Int) (db : DB) : List Int :=
  newIds (counts db).shards (wanted growShards db).toNat

/-- No unit is enabled but those of active shards and of the shards that the call adds, and unless
there is something to apply, `profiles.json` is already the rendering of what is not discarded. -/
structure Recoverable (sizing : Sizing) (growShards : Option Int) (w : World) : Prop where
  units : w.units ⊆ activeIds w.db ∪ (addedIds growShards w.db).toFinset
  profiles : (∃ s ∈ w.db.slots, s.status = .dirty) ∨ addedIds growShards w.db ≠ [] ∨
    w.files .profiles = some (.profiles (renderProfiles sizing.profileLimits (aborted w.db)))

section Maintained
variable {cfg : Config} {sizing : Sizing} {growShards : Option Int} {w w' : World} {l : Own}
  {report : Report}

/-- There was nothing to do: units and files are as before. -/
theorem recovered_idle (hinv : Inv w.db) (hserved : Served w)
    (hs : Stages growShards w.db [] [] db') (hpool : w'.pool = { w.pool with db := db' }) :
    Recovered sizing w' ↔ Recoverable sizing growShards w := by
  obtain ⟨hdb, hfiles, hunits⟩ := Pool.mk.inj hpool
  have hdb : w'.db = aborted w.db := hdb.trans hs.eq_aborted
  have hadded : addedIds growShards w.db = [] := hs.new_eq.symm
  have hnodirty : ¬ ∃ s ∈ w.db.slots, s.status = .dirty := by
    rintro ⟨s, hmem, hst⟩
    exact (hs.restart_eq_nil hinv).1 rfl s hmem hst
  constructor
  · rintro ⟨hu, hp⟩
    refine ⟨?_, .inr (.inr ?_)⟩
    · rw [hadded, List.toFinset_nil, Finset.union_empty, ← activeIds_aborted hinv, ← hdb, ← hu]
      exact subset_of_eq hunits.symm
    · rw [← hdb, ← hp]
      exact (congrFun hfiles _).symm
  · rintro ⟨hu, hp⟩
    rw [hadded, List.toFinset_nil, Finset.union_empty] at hu
    refine ⟨?_, ?_⟩
    · rw [hdb, activeIds_aborted hinv]
      exact hunits.trans (Finset.Subset.antisymm hu hserved)
    · rw [hdb]
      exact (congrFun hfiles _).trans
        ((hp.resolve_left hnodirty).resolve_left fun hne => hne hadded)

/-- The staged rows were applied: `profiles.json` is written, and the units of the new shards are
enabled. -/
theorem recovered_applied (hinv : Inv w.db) (hserved : Served w) {restart new : List Int} {ts : Int}
    (hs : Stages growShards w.db restart new db') (hne : ¬ (restart = [] ∧ new = []))

    (hpool : w'.pool = Pool.applied (applyArgs cfg sizing restart new) ts { w.pool with db := db' }) :
    Recovered sizing w' ↔ Recoverable sizing growShards w := by
  obtain ⟨hdb, hfiles, hunits⟩ := Pool.mk.inj hpool
  have hadded : addedIds growShards w.db = new := hs.new_eq.symm
  have hunits : w'.units = w.units ∪ new.toFinset := by
    rw [hunits]
    show ((Pool.cleared _).write _).units ∪ _ = _
    rw [Pool.write_units]
    rfl
  have hactive : activeIds w'.db = activeIds w.db ∪ new.toFinset := by
    rw [hdb]
    exact hs.activeIds_committed hinv
  have hprofiles : w'.files .profiles = some
      (.profiles (renderProfiles sizing.profileLimits w'.db)) := by
    have hrendered : renderProfiles sizing.profileLimits w'.db =
        renderProfiles sizing.profileLimits db' := by
      rw [hdb]
      exact renderProfiles_committed hs.inv _
    rw [hrendered, hfiles]
    exact Pool.write_of_mem (targets_nodup cfg sizing restart new db') List.mem_cons_self _
  have hdirty : (∃ s ∈ w.db.slots, s.status = .dirty) ∨ addedIds growShards w.db ≠ [] := by
    by_contra hnone
    rw [not_or, not_not, hadded] at hnone
    refine hne ⟨(hs.restart_eq_nil hinv).2 fun s hmem hst => hnone.1 ⟨s, hmem, hst⟩, hnone.2⟩
  constructor
  · rintro ⟨hu, -⟩
    refine ⟨?_, hdirty.imp_right .inl⟩
    rw [hadded, ← hactive, ← hu, hunits]
    exact Finset.subset_union_left
  · rintro ⟨hu, -⟩
    refine ⟨?_, hprofiles⟩
    rw [hadded] at hu
    rw [hunits, hactive]
    exact Finset.Subset.antisymm (Finset.union_subset hu Finset.subset_union_right)
      (Finset.union_subset_union_left hserved)

/-- A call that returns, from any state between two operations. -/
theorem Maintained.recovers (hw : Resting w) (hserved : Served w)
    (h : Maintained cfg sizing growShards w.pool w' l report) :
    NothingStaged w'.db ∧ (Recovered sizing w' ↔ Recoverable sizing growShards w) := by
  have hinv := hw.world.1
  obtain ⟨-, -, -, -, -, -, hnone, -⟩ := h.stages hinv
  refine ⟨hnone, ?_⟩
  cases h with
  | idle hs hat => exact recovered_idle hinv hserved hs hat.pool
  | applied hs hne hat => exact recovered_applied hinv hserved hs hne hat.pool

end Maintained

/-! ## The next call -/

/-- Some `maintain`, stopped or raising. -/
def Unfinished (op : Op) (out : Option (Except Err Unit)) : Prop :=
  (∃ cfg sizing growShards, op = .maintain cfg sizing growShards) ∧ out ≠ some (.ok ())

/-- A `maintain` is stopped at any point, from any state that operations lead to, whatever fails and
wherever they stop; some more may raise or be stopped. The next one that returns leaves nothing
staged; it leaves the units of the active shards and the rendering of the committed rows if and only
if its state is recoverable. -/
theorem maintain_recovers_iff (ok : Allow Action Choice State) (w w₁ w₂ : World)
    (hreach : Interrupted ok (fun _ _ => True) World.initial w) (cfg : Config) (sizing : Sizing)
    (growShards : Option Int) (n : Nat) (q : P Unit) (s : State)
    (hstop : sem.Steps ok (Op.maintain cfg sizing growShards).program (w, Own.idle n) q s)
    (hmore : Interrupted ok Unfinished (crash s).1 w₁) (cfg' : Config) (sizing' : Sizing)
    (growShards' : Option Int) (n' : Nat) (report : Report) (l : Own)

    (hrun : sem.Runs ok (maintain cfg' sizing' growShards') (w₁, Own.idle n') (.ok report) (w₂, l)) :
    NothingStaged w₂.db ∧ (Recovered sizing' w₂ ↔ Recoverable sizing' growShards' w₁) := by
  obtain ⟨hw, hserved⟩ :=
    interrupted_served resting_initial served_initial (hreach.stopped _ n q s trivial hstop)
  obtain ⟨hw₁, hserved₁⟩ := interrupted_served hw hserved hmore
  exact Maintained.recovers hw₁ hserved₁ (maintained_of_runs hw₁.world.1 hw₁.writer hrun)

/-- The values for the second shard. -/
def secondTokens : List String := (List.range 16).map fun i => sampleToken (16 + i)

/-- One shard in use, a second one staged and its unit enabled when the call stops; then a call with
these choices. -/
def stoppedThen (growShards : Option Int) (cs : List Choice) :
    Option (Option (Except Err Unit) × Option (Except Err Report) × Bool × Bool × Bool) :=
  (sem.play anything (growOnce ((List.range 16).map sampleToken)) samplePool.program
    (World.initial, Own.idle 0)).bind fun x =>
    (sem.play anything ((growOnce secondTokens).take 31) samplePool.program
      (x.2.1, Own.idle 0)).bind fun y =>
      (sem.play anything cs (maintain sampleConfig sampleSizing growShards)
        ((crash y.2).1, Own.idle 0)).map fun z =>
        (x.1.outcome?, z.1.outcome?,
          decide ((crash y.2).1.units ⊆ activeIds (crash y.2).1.db ∪
          (addedIds growShards (crash y.2).1.db).toFinset),
          decide (addedIds growShards (crash y.2).1.db ≠ []),
          decide (z.2.1.units = activeIds z.2.1.db))

/-- The parts of such a run. -/
theorem stoppedThen_inv {growShards : Option Int} {cs : List Choice} {report : Report}
    {b₁ b₂ b₃ : Bool}
    (h : stoppedThen growShards cs = some (some (.ok ()), some (.ok report), b₁, b₂, b₃)) :
    ∃ (w w₂ : World) (q : P Unit) (s : State) (l : Own),
      Interrupted (fun c {_} a s => anything c a s = true) (fun _ _ => True) World.initial w ∧
      sem.Steps (fun c {_} a s => anything c a s = true) samplePool.program (w, Own.idle 0) q s ∧
      sem.Runs (fun c {_} a s => anything c a s = true)
        (maintain sampleConfig sampleSizing growShards) ((crash s).1, Own.idle 0)
          (.ok report) (w₂, l) ∧
      decide ((crash s).1.units ⊆ activeIds (crash s).1.db ∪
        (addedIds growShards (crash s).1.db).toFinset) = b₁ ∧
      decide (addedIds growShards (crash s).1.db ≠ []) = b₂ ∧
        decide (w₂.units = activeIds w₂.db) = b₃ := by
  obtain ⟨⟨p, w, l⟩, hfirst, h⟩ := Option.bind_eq_some_iff.1 h
  obtain ⟨⟨q, s⟩, hstop, h⟩ := Option.bind_eq_some_iff.1 h
  obtain ⟨⟨p', w₂, l₂⟩, hnext, h⟩ := Option.map_eq_some_iff.1 h
  simp only [Prod.mk.injEq] at h
  obtain ⟨hp, hp', h₁, h₂, h₃⟩ := h
  obtain rfl := Prog.outcome?_eq_some.1 hp
  obtain rfl := Prog.outcome?_eq_some.1 hp'
  exact ⟨w, w₂, q, s, l₂, (Interrupted.refl _).ran samplePool 0 _ l trivial
    (Sem.Steps.of_play hfirst), Sem.Steps.of_play hstop, Sem.Steps.of_play hnext, h₁, h₂, h₃⟩

/-- Both next calls at once: the two runs share all that comes before. -/
theorem next_plays :
    (decide (stoppedThen (some 1) (growOnce secondTokens) =
      some (some (.ok ()), some (.ok ⟨0, 1⟩), true, true, true)) &&
      decide (stoppedThen none (succeed 3 ++ [.inputs ⟨[], []⟩] ++ succeed 2) =
        some (some (.ok ()), some (.ok ⟨0, 0⟩), false, false, false))) = true := by decide +kernel

theorem growAgain_plays :
    stoppedThen (some 1) (growOnce secondTokens) =
      some (some (.ok ()), some (.ok ⟨0, 1⟩), true, true, true) :=
  of_decide_eq_true (Bool.and_eq_true_iff.1 next_plays).1

/-- The next call adds the same shard. -/
theorem maintain_recovers_growAgain :
    ∃ w₂ : World, NothingStaged w₂.db ∧ Recovered sampleSizing w₂ := by
  obtain ⟨w, w₂, q, s, l, hreach, hstop, hrun, hunits, hadded, -⟩ := stoppedThen_inv growAgain_plays
  have h := maintain_recovers_iff _ w (crash s).1 w₂ hreach sampleConfig sampleSizing (some 1) 0 q s
      hstop (.refl _) sampleConfig
    sampleSizing (some 1) 0 _ l hrun
  exact ⟨w₂, h.1, h.2.2 ⟨of_decide_eq_true hunits, .inr (.inl (of_decide_eq_true hadded))⟩⟩

theorem idleNext_plays : stoppedThen none (succeed 3 ++ [.inputs ⟨[], []⟩] ++ succeed 2) =
    some (some (.ok ()), some (.ok ⟨0, 0⟩), false, false, false) :=
  of_decide_eq_true (Bool.and_eq_true_iff.1 next_plays).2

/-- The next call has nothing to do, and the unit of the discarded shard stays enabled. -/
theorem maintain_leavesUnit : ∃ (w w₂ : World) (q : P Unit) (s : State) (report : Report) (l : Own),
    Interrupted (fun c {_} a s => anything c a s = true) (fun _ _ => True) World.initial w ∧
    sem.Steps (fun c {_} a s => anything c a s = true) samplePool.program (w, Own.idle 0) q s ∧
    sem.Runs (fun c {_} a s => anything c a s = true) (maintain sampleConfig sampleSizing none)
      ((crash s).1, Own.idle 0) (.ok report) (w₂, l) ∧
    ¬ Recovered sampleSizing w₂ := by
  obtain ⟨w, w₂, q, s, l, hreach, hstop, hrun, -, -, hunits⟩ := stoppedThen_inv idleNext_plays
  exact ⟨w, w₂, q, s, _, l, hreach, hstop, hrun, fun h => of_decide_eq_false hunits h.units⟩

end WebProxyPanel
