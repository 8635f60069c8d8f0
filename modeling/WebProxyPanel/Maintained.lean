import WebProxyPanel.Counts
import WebProxyPanel.RollBack
/-!
# One `maintain`, followed to its end

What the call of one process leaves, when nothing happens between its steps: the rows that its first
transaction stages (`Stages`), and `apply` of them.

* `wanted` — the number of shards it asks for.
* `counts_committed` — what `counts` says after the commit of the staged rows.
* `alone_maintain` — the call; `applied_*` read its result.
-/

namespace WebProxyPanel
open Table Sql Effects

variable {db db' : DB}

/-! ## Counts -/

/-- Free and dirty slots are what the devices leave of the active shards. -/
theorem free_dirty (h : Inv db) :
    (counts db).free + (counts db).dirty + db.devices.length = (counts db).shards * shardSize := by
  have htotal := counts_total h
  have hassigned := counts_assigned h
  have hslots : (counts db).slots = (counts db).shards * shardSize := rfl
  omega

theorem counts_allActive (h : ∀ sh ∈ db.shards, sh.active = 1) :
    (counts db).shards = db.shards.length := by
  show (db.shards.filter fun sh => sh.active = 1).length = _
  rw [List.filter_eq_self.2 fun sh hsh => by simpa using h sh hsh]

theorem aborted_length (h : Inv db) : (aborted db).shards.length = (counts db).shards := by
  show (db.shards.filter fun sh => !decide (sh.active = 0)).length =
      (db.shards.filter fun sh => sh.active = 1).length
  refine congrArg List.length (List.filter_congr fun sh hsh => ?_)
  rcases h.layout.activeBit sh hsh with h0 | h1
  · simp [h0]
  · simp [h1]

theorem lowWater_congr (hshards : (counts db').shards = (counts db).shards) :
    lowWater db' = lowWater db := by
  have hslots : (counts db').slots = (counts db).slots := congrArg (· * shardSize) hshards
  unfold lowWater
  rw [hslots]

/-- The automatic growth depends on the numbers of shards and devices alone. -/
theorem automaticGrowth_congr (h : Inv db) (h' : Inv db')
    (hshards : (counts db').shards = (counts db).shards) (hdevices : db'.devices = db.devices) :
    automaticGrowth db' = automaticGrowth db := by
  have hfree := free_dirty h
  have hfree' := free_dirty h'
  rw [hshards, hdevices] at hfree'
  have hsum : ((counts db').free : Int) + (counts db').dirty = (counts db).free +
      (counts db).dirty := by omega
  simp only [automaticGrowth, hsum, lowWater_congr hshards]

/-! ## The staged rows -/

/-- The number of shards that a call asks for. -/
def wanted (growShards : Option Int) (db : DB) : Int :=
  match growShards with
  | some n => n
  | none => automaticGrowth db

/-- What the first transaction leaves. -/
structure Stages (growShards : Option Int) (db : DB) (restart new : List Int) (db' : DB) :
    Prop where
  parts : ∃ db₁, StagedDirty (fun v => isTokenHex v = true) (aborted db) restart db₁ ∧
    CreatedShards (fun v => isTokenHex v = true) db₁ new db'
  new_eq : new = newIds (counts db).shards (wanted growShards db).toNat

/-- More shards are asked for than there is room for. -/
def Exceeds (growShards : Option Int) (db : DB) : Prop :=
  0 < wanted growShards db ∧ maxShards < (counts db).shards + wanted growShards db

theorem onlyIntegrity_insertShards (ts : Int) (new : List Int) :
    OnlyIntegrity (new.forM (insertShard ts) >>= fun _ => Pure.pure new) :=
  OnlyIntegrity.bind (OnlyIntegrity.forM
    (fun _ => OnlyIntegrity.bind (OnlyIntegrity.execute _) fun _ =>
    OnlyIntegrity.forM (fun _ => OnlyIntegrity.bind OnlyIntegrity.newSecret fun _ =>
      OnlyIntegrity.execute _) _) _)
    fun _ => OnlyIntegrity.pure _

/-- It raises at the limit, and only there. -/
theorem createShards_error (h : Inv db) {count : Int} {inp inp' : Inputs}
    (hhex : ∀ v ∈ inp.tokens, isTokenHex v = true) {e : Err}
    (he : createShards count db inp = .error e db' inp') :
    e.isPoolError = true ∧ 0 < count ∧ maxShards < (db.shards.length : Int) + count := by
  have hne : e ≠ .integrity := by
    have hwp : (createShards count).wp (fun v => isTokenHex v = true) (fun _ _ => True) db :=
      createShards_wp h (fun _ hv => hv) fun _ _ => trivial
    have hwp := hwp inp hhex
    rw [he] at hwp
    exact hwp
  unfold createShards at he
  split at he
  · exact absurd he pure_ne_error
  · rename_i hcount
    rcases bind_eq_error.1 he with he' | ⟨first, db₁, inp₁, hfirst, hrest⟩
    · exact absurd he' query_ne_error
    · obtain ⟨rfl, rfl, rfl⟩ := query_eq_ok.1 hfirst
      rw [firstNewShard_eq h.layout] at hrest
      split at hrest
      · rename_i hlimit
        obtain ⟨rfl, -, -⟩ := raise_eq_error.1 hrest
        exact ⟨rfl, by omega, hlimit⟩
      · exact absurd (OnlyIntegrity.bind OnlyIntegrity.now
          (fun ts => onlyIntegrity_insertShards ts _) hrest) hne

theorem onlyIntegrity_stageDirty : OnlyIntegrity stageDirty := by
  refine OnlyIntegrity.bind (OnlyIntegrity.query _) fun rows =>
    OnlyIntegrity.foldlM (fun acc row => ?_) rows []
  refine OnlyIntegrity.bind ?_ fun _ => OnlyIntegrity.pure _
  unfold stageSecret
  split
  · exact OnlyIntegrity.bind OnlyIntegrity.newSecret fun _ => OnlyIntegrity.execute _
  · exact OnlyIntegrity.pure _

/-- After the first two steps the pool has the size that it had. -/
theorem StagedDirty.size {D : String → Prop} (h : Inv db) {restart : List Int} {db₁ : DB}
    (h₁ : StagedDirty D (aborted db) restart db₁) :
    db₁.shards = (aborted db).shards ∧ db₁.devices = db.devices ∧
      (counts db₁).shards = (counts db).shards := by
  have hshards : db₁.shards = (aborted db).shards := by
    have := congrArg DB.shards h₁.rest
    exact this
  have hdevices : db₁.devices = db.devices := by
    have := congrArg DB.devices h₁.rest
    exact this
  refine ⟨hshards, hdevices, ?_⟩
  rw [counts_allActive fun sh hsh => ?_, hshards, aborted_length h]
  rw [hshards] at hsh
  exact ((mem_abortedShards h).1 hsh).2

theorem growCount_ok (h : Inv db) {growShards : Option Int} {restart : List Int} {db₁ db₂ : DB}
    {inp inp' : Inputs} {grow : Int}
    (h₁ : StagedDirty (fun v => isTokenHex v = true) (aborted db) restart db₁)
    (hg : growCount growShards db₁ inp = .ok grow db₂ inp') :
    grow = wanted growShards db ∧ db₂ = db₁ ∧ inp' = inp := by
  obtain ⟨-, hdevices, hcount⟩ := h₁.size h
  cases growShards with
  | none =>
    obtain ⟨rfl, rfl, rfl⟩ := query_eq_ok.1 hg
    exact ⟨automaticGrowth_congr h h₁.inv hcount hdevices, rfl, rfl⟩
  | some n =>
    obtain ⟨rfl, rfl, rfl⟩ := pure_eq_ok.1 hg
    exact ⟨rfl, rfl, rfl⟩

theorem growCount_ne_error {growShards : Option Int} {inp inp' : Inputs} {e : Err} :
    growCount growShards db inp ≠ .error e db' inp' := by
  cases growShards with
  | none => exact query_ne_error
  | some n => exact pure_ne_error

/-- How the statements of the first transaction end. -/
def StagesOrExceeds (growShards : Option Int) (db db' : DB) :
    Except Err (List Int × List Int) → Prop
  | .ok x => Stages growShards db x.1 x.2 db'
  | .error e => e.isPoolError = true ∧ Exceeds growShards db

theorem yields_stageRows (h : Inv db) {growShards : Option Int}
    {r : Except Err (List Int × List Int)} (hy : Yields (stageRows growShards) db r db') :
    StagesOrExceeds growShards db db' r := by
  obtain ⟨inp, hhex, hr⟩ := hy
  -- abort, and the dirty slots
  have habort : ∀ {u db₁ inp₁}, abortStaged db inp = .ok u db₁ inp₁ → db₁ = aborted db ∧
      ∀ v ∈ inp₁.tokens, isTokenHex v = true :=
    fun hok => wp.of_ok (abortStaged_wp h (D := fun v => isTokenHex v = true)
      (Q := fun _ db' => db' = aborted db) rfl) hhex hok
  have hwpDirty := stageDirty_wp (inv_aborted h) (fun _ hv => hv) (fun s hs => aborted_pending h hs)
    (Q := fun restart db' => StagedDirty (fun v => isTokenHex v = true) (aborted db) restart db')
    fun _ _ hs => hs
  cases r with
  | ok x =>
    obtain ⟨u, db₁, inp₁, ha, hr₁⟩ := bind_eq_ok.1 hr
    obtain ⟨rfl, hhex₁⟩ := habort ha
    obtain ⟨restart, db₂, inp₂, hd, hr₂⟩ := bind_eq_ok.1 hr₁
    obtain ⟨h₁, hhex₂⟩ := wp.of_ok hwpDirty hhex₁ hd
    obtain ⟨grow, db₃, inp₃, hg, hr₃⟩ := bind_eq_ok.1 hr₂
    obtain ⟨rfl, rfl, rfl⟩ := growCount_ok h h₁ hg
    obtain ⟨new, db₄, inp₄, hc, hr₄⟩ := bind_eq_ok.1 hr₃
    obtain ⟨rfl, rfl, -⟩ := pure_eq_ok.1 hr₄
    have hcreated := (wp.of_ok (createShards_wp h₁.inv (fun _ hv => hv) (Q := fun new db' =>
      new = newIds db₃.shards.length (wanted growShards db).toNat ∧
        CreatedShards (fun v => isTokenHex v = true) db₃ new db')
      fun _ hc => ⟨rfl, hc⟩) hhex₂ hc).1
    refine ⟨⟨db₃, h₁, hcreated.2⟩, ?_⟩
    rw [hcreated.1, (h₁.size h).1, aborted_length h]
  | error e =>
    rcases bind_eq_error.1 hr with ha | ⟨u, db₁, inp₁, ha, hr₁⟩
    · exact absurd ha (onlyIntegrity_abortStaged.ne_error
        (abortStaged_wp h (D := fun v => isTokenHex v = true) (Q := fun _ _ => True) trivial) hhex)
    obtain ⟨rfl, hhex₁⟩ := habort ha
    rcases bind_eq_error.1 hr₁ with hd | ⟨restart, db₂, inp₂, hd, hr₂⟩
    · exact absurd hd (onlyIntegrity_stageDirty.ne_error hwpDirty hhex₁)
    obtain ⟨h₁, hhex₂⟩ := wp.of_ok hwpDirty hhex₁ hd
    rcases bind_eq_error.1 hr₂ with hg | ⟨grow, db₃, inp₃, hg, hr₃⟩
    · exact absurd hg growCount_ne_error
    obtain ⟨rfl, rfl, rfl⟩ := growCount_ok h h₁ hg
    rcases bind_eq_error.1 hr₃ with hc | ⟨new, db₄, inp₄, hc, hr₄⟩
    · obtain ⟨hpool, hpos, hlimit⟩ := createShards_error h₁.inv hhex₂ hc
      rw [(h₁.size h).1, aborted_length h] at hlimit
      exact ⟨hpool, hpos, hlimit⟩
    · exact absurd hr₄ pure_ne_error

namespace Stages
variable {growShards : Option Int} {restart new : List Int}

theorem staged (h : Inv db) (hs : Stages growShards db restart new db') :
    Staged (fun v => isTokenHex v = true) db restart new db' := by
  obtain ⟨db₁, h₁, h₂⟩ := hs.parts
  refine staged_of_parts h h₁ ?_ h₂
  rw [(h₁.size h).1, aborted_length h, hs.new_eq]
  simp [newIds]

theorem inv (hs : Stages growShards db restart new db') : Inv db' := hs.parts.choose_spec.2.inv

theorem shards (h : Inv db) (hs : Stages growShards db restart new db') :
    db'.shards.length = (counts db).shards + new.length := by
  obtain ⟨db₁, h₁, h₂⟩ := hs.parts
  obtain ⟨ts, hg⟩ := h₂.grown
  rw [hg.shards, List.length_append, List.length_map, (h₁.size h).1, aborted_length h]

theorem restart_eq_nil (h : Inv db) (hs : Stages growShards db restart new db') :
    restart = [] ↔ ∀ s ∈ db.slots, s.status ≠ .dirty := by
  obtain ⟨db₁, h₁, -⟩ := hs.parts
  rw [List.eq_nil_iff_forall_not_mem]
  constructor
  · intro hnone s hs hst
    have hact : OnActive db s := by
      by_contra hna
      rw [h.inactive s hs hna] at hst
      simp at hst
    exact hnone s.shardId
      ((h₁.restart _).2 ⟨s.noPending, (mem_aborted h).2 ⟨s, hs, hact, rfl⟩, hst, rfl⟩)
  · intro hclean k hk
    obtain ⟨s', hs', hst, -⟩ := (h₁.restart k).1 hk
    obtain ⟨s, hs, -, rfl⟩ := (mem_aborted h).1 hs'
    exact hclean s hs hst

/-- Nothing dirty, nothing to add: the rows are those of the abort. -/
theorem eq_aborted (hs : Stages growShards db [] [] db') : db' = aborted db := by
  obtain ⟨db₁, h₁, h₂⟩ := hs.parts
  obtain ⟨ts, hg⟩ := h₂.grown
  obtain ⟨news, hslots, hkeys, -⟩ := hg.slots
  have hnews : news = [] := by simpa using hkeys
  have hclean : ∀ s ∈ (aborted db).slots, s.status ≠ .dirty := by
    intro s hs hst
    have := (h₁.restart s.shardId).2 ⟨s, hs, hst, rfl⟩
    simp at this
  have hsame : db₁.slots = (aborted db).slots := by
    refine List.ext_getElem h₁.slots.length_eq.symm fun i hi hi' => ?_
    have := h₁.slots.get hi' hi
    simp only [List.get_eq_getElem, if_neg (hclean _ (List.getElem_mem hi'))] at this
    exact this
  have hshards : db'.shards = db₁.shards := by simpa using hg.shards
  have hslots : db'.slots = db₁.slots := by rw [hslots, hnews, List.append_nil]
  have hgrown := hg.rest
  have hdirty := h₁.rest
  rw [← hshards, ← hslots] at hgrown
  rw [← hsame] at hdirty
  exact hgrown.trans hdirty

end Stages

/-- After the commit of the staged rows no slot is dirty, and the new shards are free. -/
theorem counts_committed (h : Inv db) {growShards : Option Int} {restart new : List Int}
    (hs : Stages growShards db restart new db') :
    (counts (committed db')).shards = (counts db).shards + new.length ∧
      (counts (committed db')).dirty = 0 ∧
      (counts (committed db')).free = (counts db).free + (counts db).dirty + shardSize *
        new.length := by
  have hinv := inv_committed hs.inv
  have hshards : (counts (committed db')).shards = (counts db).shards + new.length := by
    rw [counts_allActive fun sh hsh => (mem_committedShards hs.inv hsh).1, ← hs.shards h]
    exact length_update _ _ _
  have hdirty : (counts (committed db')).dirty = 0 := by
    change countStatus .dirty (committed db') = 0
    rw [countStatus_eq hinv, List.countP_eq_zero]
    intro s' hs' hst
    obtain ⟨s, hmem, rfl⟩ := mem_committed.1 hs'
    have hst : s.committed.status = .dirty := by simpa using (Bool.and_eq_true_iff.1 hst).2
    cases hp : s.pendingSecret with
    | none =>
      rw [Slot.committed_none hp] at hst
      exact (hs.staged h).dirty s hmem hst hp
    | some v =>
      rw [hs.inv.committed_some hmem hp] at hst
      simp at hst
  refine ⟨hshards, hdirty, ?_⟩
  have hdevices : (committed db').devices = db.devices := (hs.staged h).devices
  have hfree := free_dirty h
  have hfree' := free_dirty hinv
  rw [hshards, hdevices, hdirty, Nat.add_mul] at hfree'
  rw [Nat.mul_comm shardSize]
  omega

/-! ## The shards of the call are whole -/

/-- Sixteen rows for every shard. -/
theorem Layout.shardRows_length (h : Layout db) (hid : (db.shards.map (·.id)).Nodup) {k : Int}
    (hk : k ∈ db.shards.map (·.id)) : (shardRows k db).length = shardSize := by
  have hrows : (shardRows k db).length = (db.slots.map Slot.key).countP fun x =>
      decide (x.1 = k) := by
    rw [shardRows, (orderBy_perm _ _).length_eq, List.countP_map, List.countP_eq_length_filter]
    rfl
  have hone : ∀ sh : Shard, (shardKeys sh.id).countP (fun x => decide (x.1 = k)) = if sh.id = k then
      shardSize else 0 := by
    intro sh
    by_cases hsh : sh.id = k
    · rw [if_pos hsh, List.countP_eq_length.2 fun x
        hx => by simpa [hsh] using (mem_shardKeys.1 hx).1]
      simp [shardKeys]
    · rw [if_neg hsh, List.countP_eq_zero]
      intro x hx
      rw [(mem_shardKeys.1 hx).1]
      simpa using hsh
  rw [hrows, h.keys, List.countP_flatMap]
  have hsum : db.shards.map ((List.countP fun x => decide (x.1 = k)) ∘ fun sh => shardKeys sh.id) =
      db.shards.map fun sh => if sh.id = k then shardSize else
      0 := List.map_congr_left fun sh _ => hone sh
  rw [hsum, List.sum_map_ite]
  have hcount : (db.shards.filter fun sh => decide (sh.id = k)).length = 1 := by
    rw [← List.countP_eq_length_filter]
    have := List.count_eq_one_of_mem hid hk
    rwa [List.count, List.countP_map] at this
  simp [hcount]

theorem Stages.whole (h : Inv db) {growShards : Option Int} {restart new : List Int}
    (hs : Stages growShards db restart new db') (cfg : Config) (sizing : Sizing) :
    Whole (applyArgs cfg sizing restart new).shards db' := by
  intro k hk
  have hst := hs.staged h
  refine hs.inv.layout.shardRows_length hs.inv.consistent.shardId ?_
  rcases List.mem_append.1 (mem_sortedSet.1 hk) with hk | hk
  · obtain ⟨s, hmem, -, rfl⟩ := (hst.restart k).1 hk
    exact hs.inv.consistent.slotShard s hmem
  · exact hst.newIds k hk

/-! ## The call -/

section Rules
variable {ok : Allow Action Choice State} {v : Pool} {p : Phase} {w : World} {l : Own} {α : Type}

theorem At.setLock (h : At none v p w l) (held locked synced : Bool) :
    At none v p (w.setLock held) { l with locked := locked, synced := synced } :=
  ⟨h.inTx, h.writer, h.pool, h.phase⟩

/-- What a state looks like after the release of the lock. -/
def released (K : World → Own → Prop) (w : World) (l : Own) : Prop :=
  K (w.setLock false) ({ l with locked := false, synced := false }.note [⟨.unlock, .ok⟩])

/-- `apply_lock` -/
theorem alone_applyLock {K : α → World → Own → Prop} {E : Err → World → Own → Prop} {body : P α}
    (hlock : OneFault ok → w.poolLock = false)
    (hbody : ∀ w l, At none v p w l →
      Safe sem ok alone (eligible ok) (post (fun a => released (K a)) fun e => released (E e)) body
        w l)
    (hfail : ∀ e w l, Broke ok none v p p.fails e w l → E e w l) (h : At none v p w l) :
    Safe sem ok alone (eligible ok) (post K E) (applyLock body) w l := by
  have hunlock : ∀ {Q : Except Err Unit → World → Own → Prop} {w l}, released (Q (.ok ())) w l →
      Safe sem ok alone (eligible ok) Q (.call .unlock) w l := by
    intro Q w l hq
    refine Safe.callStable (stable_alone _) ?_
    rintro _ rfl
    refine ⟨fun _ => can_of .ok rfl rfl, fun r w₂ l₂ hn => ?_⟩
    obtain ⟨rfl, rfl, rfl⟩ := next_unlock hn
    exact hq
  unfold applyLock
  simp only [Prog.bind_eq]
  refine Safe.seq isRely_alone (K := fun _ => At none v p) (Safe.callStable (stable_alone _) ?_)
    fun _ w₁ l₁ h₁ => ?_
  · rintro _ rfl
    refine ⟨fun hone => can_of .ok rfl (by simp [respond, hlock hone]), fun r w₂ l₂ hn => ?_⟩
    rcases next_lock hn with ⟨rfl, -, rfl, rfl⟩ | ⟨msg, done, hok, rfl, rfl, rfl⟩
    · exact (h.setLock true true false).next (Phase.next_ok rfl p)
    · exact hfail _ _ _ fun hone =>
        ⟨hone.phase h hok (by simp [Choice.result]), h.next (Phase.next_raised rfl p)⟩
  · refine Safe.tryFinally isRely_alone (stable_alone _) (by rintro a w l _ rfl h; exact h)
      (by rintro e w l _ rfl h; exact h)
      (hbody w₁ l₁ h₁) (fun a w l hq => hunlock hq) fun e w l hq => hunlock hq

theorem released_at {K : World → Own → Prop} (h : At none v p w l)
    (hK : ∀ w l, At none v p w l → K w l) : released K w l :=
  hK _ _ ((h.setLock false false false).next (Phase.next_ok rfl p))

/-- What a call that returns has left. -/
inductive Maintained (cfg : Config) (sizing : Sizing) (growShards : Option Int) (v : Pool)
    (w : World) (l : Own) : Report → Prop
  /-- There was nothing to do. -/
  | idle {db' : DB} : Stages growShards v.db [] [] db' → At none
      { v with db := db' } .checking w l → Maintained cfg sizing growShards v w l ⟨0, 0⟩
  /-- The staged rows have been applied. -/
  | applied {restart new : List Int} {db' : DB} {ts : Int} :
      Stages growShards v.db restart new db' → ¬ (restart = [] ∧ new = []) →
      At none (Pool.applied (applyArgs cfg sizing restart new) ts { v with db := db' })
        .healthy w l →
      Maintained cfg sizing growShards v w l ⟨pendingCount db', new.length⟩

/-- How it raises where at most one call fails. -/
def MaintainFails (ok : Allow Action Choice State) (growShards : Option Int) (v : Pool) (e : Err)
    (w : World) (l : Own) : Prop :=
  OneFault ok → (e.isPoolError = true ∧ Exceeds growShards v.db ∧ At none v .checking w l) ∨
    ∃ handled u, At none u (.failed handled) w l

theorem alone_maintain (cfg : Config) (sizing : Sizing) (growShards : Option Int) (hinv : Inv v.db)
    (hlock : OneFault ok → w.poolLock = false) (h : At none v .checking w l) :
    Safe sem ok alone (eligible ok)
      (post (fun report w l => Maintained cfg sizing growShards v w l report)
      (MaintainFails ok growShards v)) (maintain cfg sizing growShards) w l := by
  -- the release of the lock changes nothing that is said here
  have hfails : ∀ {e w l}, MaintainFails ok growShards v e w l →
      released (MaintainFails ok growShards v e) w l := by
    intro e w l hf hone
    rcases hf hone with ⟨he, hx, hat⟩ | ⟨handled, u, hat⟩
    · exact .inl ⟨he, hx, released_at hat fun _ _ => id⟩
    · exact .inr ⟨handled, u, released_at hat fun _ _ => id⟩
  unfold maintain
  refine alone_applyLock hlock (fun w l h => ?_)
    (fun e w l hb hone => .inr ⟨false, v, (hb hone).2⟩) h
  simp only [Prog.bind_eq]
  refine alone_seq (alone_statements (fed_stageRows hinv growShards) h)
    (fun e w l hq => hfails fun hone => ?_) ?_
  · obtain ⟨p', ⟨-, rfl⟩ | ⟨⟨db', hy⟩, rfl⟩, hat⟩ := hq hone
    · exact .inr ⟨false, v, hat⟩
    · obtain ⟨he, hx⟩ := yields_stageRows hinv hy
      exact .inl ⟨he, hx, hat⟩
  rintro ⟨restart, new⟩ w₁ l₁ ⟨db', hy, h₁⟩
  have hs : Stages growShards v.db restart new db' := yields_stageRows hinv hy
  by_cases hnone : restart = [] ∧ new = []
  · obtain ⟨rfl, rfl⟩ := hnone
    simp only [and_self, if_true, Prog.pure_eq]
    exact Safe.retStable (stable_alone _)
      (released_at (K := fun w l => Maintained cfg sizing growShards v w l _) h₁ fun _ _ =>
      .idle hs)
  · simp only [if_neg hnone]
    have hseen : w₁.seen l₁.inTx = db' := by
      rw [h₁.inTx]
      exact congrArg Pool.db h₁.pool
    refine alone_seq (alone_look (b := pendingCount db') (f := .sqlite) rfl rfl
      (fun c => by rw [← hseen]; rfl) h₁)
      (fun e w l hq => hfails fun hone => .inr ⟨false, _, (hq hone).2⟩) ?_
    rintro _ w₂ l₂ ⟨rfl, h₂⟩
    refine alone_seq (alone_apply cfg sizing restart new hs.inv h₂)
      (fun e w l hq => hfails fun hone => .inr ?_) ?_
    · rcases hq hone with ⟨-, -, u, -, -, hat⟩ | ⟨u, -, hat⟩ | ⟨hnot, -⟩
      · exact ⟨true, u, hat⟩
      · exact ⟨false, u, hat⟩
      · exact absurd (hs.whole hinv cfg sizing) hnot
    · rintro _ w₃ l₃ ⟨-, ts, h₃⟩
      exact Safe.retStable (stable_alone _)
        (released_at (K := fun w l => Maintained cfg sizing growShards v w l _) h₃ fun _ _ =>
        .applied hs hnone)

/-- Anything may fail at any time. -/
def anyFault : Allow Action Choice State := fun _ {_} _ _ => True

theorem not_oneFault_anyFault : ¬ OneFault anyFault := by
  intro hone
  have := hone (.fail "" false) ((World.initial, (Own.idle 0).note [⟨.lock, .raised⟩]) : State)
      .lock trivial (by simp [Choice.result])
  simpa [Own.idle] using this _ List.mem_cons_self

/-- A complete run that returns, whatever the fault model. -/
theorem maintained_of_runs {cfg : Config} {sizing : Sizing} {growShards : Option Int} {w' : World}
    {n : Nat} {report : Report} (hinv : Inv w.db) (hwriter : w.writer = none)
    (hrun : sem.Runs ok (maintain cfg sizing growShards) (w, Own.idle n) (.ok report) (w', l)) :
    Maintained cfg sizing growShards w.pool w' l report := by
  have hat : At none w.pool .checking w (Own.idle n) := ⟨rfl, hwriter, rfl, rfl⟩
  have hsafe : Safe sem anyFault alone (eligible anyFault) _ _ _ _ :=
    alone_maintain cfg sizing growShards hinv (fun hone => absurd hone not_oneFault_anyFault) hat
  exact Safe.runs isRely_alone hsafe (Sem.Steps.mono (fun _ _ _ _ _ => trivial) hrun)

end Rules

end WebProxyPanel
