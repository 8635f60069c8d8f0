import WebProxyPanel.Throughout
/-!
# One maintenance window (`needs_maintenance` after `maintain`)

`maintain` computes the missing slots from the low-water mark of the pool as it is, and
`needs_maintenance` compares with the mark of the grown pool. From 160 slots on the mark grows with
the pool, so one window may not be enough.

* `mark`, `shortage` — the mark of a size, and the shards that are missing to it.
* `OneWindow` — when the grown pool is above its own mark.
-/

namespace WebProxyPanel
open Table Sql Effects

variable {db db' : DB}

/-! ## The arithmetic -/

/-- `low_water` of a pool with so many active shards. -/
def mark (shards : Nat) : Nat := max shardSize (shards * shardSize / 10)

/-- The fewest shards that lift so many clean slots to the mark. -/
def shortage (shards clean : Nat) : Nat := (mark shards - clean + (shardSize - 1)) / shardSize

/-- The shards that are missing to the mark of the pool as it is suffice for the mark of the grown
pool. -/
def OneWindow (shards clean : Nat) : Prop :=
  mark (shards + shortage shards clean) ≤ clean + shardSize * shortage shards clean

instance (shards clean : Nat) : Decidable (OneWindow shards clean) := by
  unfold OneWindow
  infer_instance

theorem lowWater_eq (db : DB) : lowWater db = mark (counts db).shards := rfl

/-- Free slots, and those that the next window cleans. -/
def clean (db : DB) : Nat := (counts db).free + (counts db).dirty

theorem automaticGrowth_eq (db : DB) :
    automaticGrowth db = shortage (counts db).shards (clean db) := by
  have hsize : (shardSize : Int) = 16 := rfl
  simp only [automaticGrowth, shortage, clean, lowWater_eq, hsize]
  have hnat : shardSize = 16 := rfl
  rw [hnat]
  omega

theorem shortage_eq_zero {shards clean : Nat} (h : mark shards ≤ clean) :
    shortage shards clean = 0 := by
  have hnat : shardSize = 16 := rfl
  unfold shortage
  rw [hnat]
  omega

example : (∀ shards < 10, ∀ clean < 17, OneWindow shards clean) ∧ ¬ OneWindow 10 0 := by decide

/-! ## Nothing staged -/

theorem aborted_eq_self (h : NothingStaged db) : aborted db = db := by
  have hclear : db.clearPending = db := by
    have : update (fun s : Slot => s.pendingSecret.isSome)
        (fun s => { s with pendingSecret := none }) db.slots = db.slots := by
      unfold update
      refine (List.map_congr_left fun s hs => ?_).trans (List.map_id _)
      simp [h.pending s hs]
    simp only [DB.clearPending, this]
  have hnone : inactiveShards db = [] := by
    unfold inactiveShards
    rw [List.map_eq_nil_iff, List.filter_eq_nil_iff]
    intro sh hsh
    simp [h.shards sh hsh]
  have hslots : db.dropInactiveSlots = db := by
    have : delete (fun s : Slot => decide (s.shardId ∈ inactiveShards db)) db.slots = db.slots := by
      rw [hnone]
      exact List.filter_eq_self.2 fun s _ => by simp
    simp only [DB.dropInactiveSlots, this]
  have hshards : db.dropInactiveShards = db := by
    have : delete (fun sh : Shard => decide (sh.active = 0)) db.shards = db.shards :=
      List.filter_eq_self.2 fun sh hsh => by simp [h.shards sh hsh]
    simp only [DB.dropInactiveShards, this]
  rw [aborted, hclear, hslots, hshards]

theorem committed_eq_self (h : NothingStaged db) : committed db = db := by
  have hslots : db.slots.map Slot.committed = db.slots :=
    (List.map_congr_left fun s hs => Slot.committed_none (h.pending s hs)).trans (List.map_id _)
  have hshards : update (fun sh : Shard => decide (sh.active = 0))
      (fun sh => { sh with active := 1 }) db.shards = db.shards := by
    unfold update
    refine (List.map_congr_left fun sh hsh => ?_).trans (List.map_id _)
    simp [h.shards sh hsh]
  simp only [committed, DB.activateShards, hslots, hshards]

theorem nothingStaged_committed (h : Inv db) : NothingStaged (committed db) where
  pending _ hs := committed_pending h hs
  shards _ hsh := (mem_committedShards h hsh).1
  slots _ hs := onActive_committed h hs

/-! ## After a call -/

section After
variable {cfg : Config} {sizing : Sizing} {growShards : Option Int} {v : Pool} {w : World} {l : Own}
  {report : Report}

/-- Whatever there was to do: the staged rows, committed, and perhaps the event of `apply`. -/
theorem Maintained.stages (hinv : Inv v.db) (h : Maintained cfg sizing growShards v w l report) :
    ∃ restart new db' events, Stages growShards v.db restart new db' ∧
      w.db = { committed db' with events := events } ∧
      NothingStaged w.db ∧ Inv w.db := by
  cases h with
  | @idle db' hs hat =>
    have hdb : w.db = db' := congrArg Pool.db hat.pool
    have hnone : NothingStaged db' := hs.eq_aborted ▸ nothingStaged_aborted hinv
    refine ⟨[], [], db', db'.events, hs, ?_, hdb ▸ hnone, hdb ▸ hs.inv⟩
    rw [hdb, committed_eq_self hnone]
  | @applied restart new db' ts hs hne hat =>
    have hdb : w.db = appliedEvent (applyArgs cfg sizing restart new) ts db' :=
      congrArg Pool.db hat.pool
    have hnone := nothingStaged_committed hs.inv
    refine ⟨restart, new, db', _, hs, hdb, ?_, ?_⟩
    · rw [hdb]
      exact ⟨hnone.pending, hnone.shards, hnone.slots⟩
    · rw [hdb]
      exact Users.inv_addEvent (inv_committed hs.inv) _ _ _ _

/-- The call makes as many shards as are missing. -/
theorem Stages.new_length {restart new : List Int} (hs : Stages none db restart new db') :
    new.length = shortage (counts db).shards (clean db) := by
  rw [hs.new_eq]
  simp [newIds, wanted, automaticGrowth_eq]

/-- One window reaches the goal if the missing shards suffice for the grown pool. -/
theorem needsMaintenance_iff (hinv : Inv v.db) (h : Maintained cfg sizing none v w l report) :
    needsMaintenance w.db = false ↔ OneWindow (counts v.db).shards (clean v.db) := by
  obtain ⟨restart, new, db', events, hs, hdb, -⟩ := h.stages hinv
  obtain ⟨hshards, hdirty, hfree⟩ := counts_committed hinv hs
  have hcounts : counts w.db = counts (committed db') := by
    rw [hdb]
    rfl
  rw [hs.new_length] at hshards hfree
  unfold needsMaintenance
  rw [lowWater_eq, hcounts, hshards, hdirty, hfree]
  unfold OneWindow
  show (decide (0 > 0) || decide (clean v.db + _ < _)) = false ↔ _
  simp

end After

/-! ## A second call -/

/-- No dirty slot is counted, so there is none. -/
theorem no_dirty (h : Inv db) (hdirty : (counts db).dirty = 0) :
    ∀ s ∈ db.slots, s.status ≠ .dirty := by
  intro s hs hst
  have hact : OnActive db s := by
    by_contra hna
    rw [h.inactive s hs hna] at hst
    simp at hst
  have hzero : countStatus .dirty db = 0 := hdirty
  rw [countStatus_eq h, List.countP_eq_zero] at hzero
  exact hzero s hs (by simp [hact, hst])

/-- A call with nothing to do stages nothing. -/
theorem stages_nothing (h : Inv db) (hneeds : needsMaintenance db = false) {restart new : List Int}
    (hs : Stages none db restart new db') : restart = [] ∧ new = [] := by
  obtain ⟨hdirty, hfree⟩ : (counts db).dirty = 0 ∧ lowWater db ≤ (counts db).free := by
    simpa [needsMaintenance] using hneeds
  refine ⟨(hs.restart_eq_nil h).2 (no_dirty h hdirty), ?_⟩
  have hshort : shortage (counts db).shards (clean db) = 0 := by
    apply shortage_eq_zero
    rw [← lowWater_eq]
    unfold clean
    omega
  rw [hs.new_eq, wanted, automaticGrowth_eq, hshort]
  rfl

/-- `restart_relay` or `restart_shard`. -/
def Call.restarts : Call → Bool
  | .restartRelay | .restartShard _ => true
  | _ => false

/-- Nothing changes and nothing is restarted. -/
def Untouched (w : World) (w' : World) (l : Own) : Prop :=
  w'.pool = w.pool ∧ ∀ e ∈ l.trace, e.call.restarts = false

/-- A further automatic call, whichever way it ends. -/
def NextIdle (w : World) : Prop :=
  ∀ (ok : Allow Action Choice State) (cfg : Config) (sizing : Sizing) (n : Nat)
  (out : Except Err Report) (w' : World) (l : Own),
  sem.Runs ok (maintain cfg sizing none) (w, Own.idle n) out (w', l) → Untouched w w' l

/-- Files and units of `w`, and no restart so far. -/
def AsIn (w : World) : Known :=
  fun files units es => files = w.files ∧ units = w.units ∧ ∀ e ∈ es, e.call.restarts = false

theorem lasts_asIn (w : World) : (AsIn w).Lasts := by
  rintro files units es call r hcall ⟨hf, hu, hes⟩
  refine ⟨hf, hu, fun e he => ?_⟩
  rcases List.mem_append.1 he with he | he
  · exact hes e he
  · rw [List.mem_singleton.1 he]
    cases call <;> simp_all [Call.internal, Call.restarts]

theorem Still.untouched {w w' : World} {l : Own} (h : Still (AsIn w) w.db none w' l) :
    Untouched w w' l := by
  obtain ⟨hf, hu, hes⟩ := h.known
  refine ⟨?_, hes⟩
  show Pool.mk w'.db w'.files w'.units = Pool.mk w.db w.files w.units
  rw [h.db, hf, hu]

theorem nextIdle {w : World} (hinv : Inv w.db) (hwriter : w.writer = none)
    (hnone : NothingStaged w.db) (hneeds : needsMaintenance w.db = false) : NextIdle w := by
  intro ok cfg sizing n out w' l hrun
  have hstart : Still (AsIn w) w.db none w (Own.idle n) :=
    ⟨rfl, hwriter, rfl, rfl, rfl, by simp [Own.idle]⟩
  have hsafe : Safe sem ok alone (watch (fun _ _ => True) fun _ _ => True)
      (post (fun _ w₁ l => ∃ db', db' = w.db ∧ Still (AsIn w) db' none w₁ l) fun _ w₁ l => ∃ db',
        db' = w.db ∧ Still (AsIn w) db' none w₁ l)
      (maintain cfg sizing none) w (Own.idle n) := by
    unfold maintain
    refine still_applyLock (E := fun db' => db' = w.db) (lasts_asIn w)
      (fun w₁ l₁ h₁ => ?_) rfl hstart
    simp only [Prog.bind_eq]
    refine Safe.seq isRely_alone
      ((still_statements (lasts_asIn w) (fun _ _ _ _ _ _ => trivial) h₁).mono ?_) ?_
      (K := fun x w₁ l => ∃ db', Yields (stageRows none) w.db (.ok x) db' ∧
        Still (AsIn w) db' none w₁ l)
    · rintro (e | x) w₂ l₂ hq
      · exact ⟨w.db, rfl, hq⟩
      · exact hq
    · rintro ⟨restart, new⟩ w₂ l₂ ⟨db', hy, h₂⟩
      have hs : Stages none w.db restart new db' := yields_stageRows hinv hy
      obtain ⟨rfl, rfl⟩ := stages_nothing hinv hneeds hs
      have hdb : db' = w.db := by rw [hs.eq_aborted, aborted_eq_self hnone]
      simp only [and_self, if_true, Prog.pure_eq]
      exact Safe.retStable (stable_alone _) ⟨db', hdb, h₂⟩
  have hend := Safe.runs isRely_alone hsafe hrun
  rcases out with e | a
  · obtain ⟨_, rfl, h⟩ := hend
    exact h.untouched
  · obtain ⟨_, rfl, h⟩ := hend
    exact h.untouched

end WebProxyPanel
