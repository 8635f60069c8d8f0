import WebProxyPanel.Filled
/-!
# The goal of `maintain`

`needs_maintenance` is false after an automatic `maintain`, and the next call has nothing to do,
exactly if the shards that are missing to the mark of the pool suffice for the mark of the grown
pool.
-/

namespace WebProxyPanel
open Effects

/-! ## The goal -/

/-- An automatic `maintain` that returns, alone, from a state between two operations, has reached
its goal, and the next one has nothing to do, if and only if the shards missing to the mark of the
pool suffice for that of the grown pool. -/
theorem maintain_reachesGoal_iff (ok : Allow Action Choice State) (cfg : Config) (sizing : Sizing)
    (w w' : World) (n : Nat) (report : Report) (l : Own) (hw : Resting w)
    (hrun : sem.Runs ok (maintain cfg sizing none) (w, Own.idle n) (.ok report) (w', l)) :
    needsMaintenance w'.db = false ∧ NextIdle w' ↔ OneWindow (counts w.db).shards (clean w.db) := by
  have hdone := maintained_of_runs hw.world.1 hw.writer hrun
  obtain ⟨-, -, -, -, -, -, hnone, hinv⟩ := hdone.stages hw.world.1
  have hwriter : w'.writer = none := by
    cases hdone with
    | idle _ hat => exact hat.writer
    | applied _ _ hat => exact hat.writer
  have hiff : needsMaintenance w'.db = false ↔ OneWindow (counts w.db).shards (clean w.db) :=
    needsMaintenance_iff (v := w.pool) hw.world.1 hdone
  rw [← hiff]
  exact and_iff_left_of_imp fun hneeds => nextIdle hinv hwriter hnone hneeds

/-- One shard, all its slots in use: one call reaches the goal. -/
theorem maintain_reachesGoal_full : ∃ (w w' : World) (report : Report) (l : Own), Populated 1 16 w ∧
    sem.Runs noFault (maintain sampleConfig sampleSizing none) (w, Own.idle 0)
      (.ok report) (w', l) ∧
    needsMaintenance w'.db = false ∧ NextIdle w' := by
  obtain ⟨w, hw⟩ := exists_filled (n := 1) (k := 16) (by decide) (by decide)
  obtain ⟨⟨out, ⟨w', l⟩, hrun⟩, hends⟩ :=
    maintain_noFault sampleConfig sampleSizing none 0 hw.resting hw.unlocked
  have hclean : clean w.db = 0 := by
    have hsum := hw.clean_eq
    have hsize : shardSize = 16 := rfl
    rw [hsize] at hsum
    omega
  rcases out with e | report
  · obtain ⟨-, ⟨-, hlimit⟩, -⟩ := hends _ w' l hrun
    have hlimit : (maxShards : Int) < (counts w.db).shards + automaticGrowth w.db := hlimit
    rw [automaticGrowth_eq, hw.shards, hclean] at hlimit
    exact absurd hlimit (by decide)
  · refine ⟨w, w', report, l, hw.toPopulated, hrun, ?_⟩
    refine (maintain_reachesGoal_iff noFault sampleConfig sampleSizing w w' 0 report l
      hw.resting hrun).2 ?_
    rw [hw.shards, hclean]
    decide

/-- Ten shards, all their slots in use: one shard is missing to the mark of 16 slots, and the mark
of the grown pool is 17. -/
theorem maintain_missesGoal : ∃ (w w' : World) (report : Report) (l : Own), Populated 10 160 w ∧
    sem.Runs noFault (maintain sampleConfig sampleSizing none) (w, Own.idle 0) (.ok report)
      (w', l) ∧ needsMaintenance w'.db = true := by
  obtain ⟨w, hw⟩ := exists_filled (n := 10) (k := 160) (by decide) (by decide)
  obtain ⟨⟨out, ⟨w', l⟩, hrun⟩, hends⟩ :=
    maintain_noFault sampleConfig sampleSizing none 0 hw.resting hw.unlocked
  have hclean : clean w.db = 0 := by
    have hsum := hw.clean_eq
    have hsize : shardSize = 16 := rfl
    rw [hsize] at hsum
    omega
  rcases out with e | report
  · obtain ⟨-, ⟨-, hlimit⟩, -⟩ := hends _ w' l hrun
    have hlimit : (maxShards : Int) < (counts w.db).shards + automaticGrowth w.db := hlimit
    rw [automaticGrowth_eq, hw.shards, hclean] at hlimit
    exact absurd hlimit (by decide)
  · refine ⟨w, w', report, l, hw.toPopulated, hrun, ?_⟩
    have hiff : needsMaintenance w'.db = false ↔ OneWindow (counts w.db).shards (clean w.db) :=
      needsMaintenance_iff (v := w.pool) hw.resting.world.1 (hends _ w' l hrun)
    rw [hw.shards, hclean] at hiff
    exact eq_true_of_ne_false fun hfalse => absurd (hiff.1 hfalse) (by decide)

end WebProxyPanel
