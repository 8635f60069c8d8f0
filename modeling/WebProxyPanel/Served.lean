import WebProxyPanel.Throughout
import WebProxyPanel.People
/-!
# Every active shard has its unit

A shard becomes active with the COMMIT that ends `apply`, after its unit was enabled, and units are
disabled only for shards that are not active. So the units of the active shards are enabled at every
point of every run, whatever fails and wherever it stops.

* `activeIds`, `Served` — the ids of the active shards; their units are enabled.
* `served_maintain` — `maintain` keeps it at each of its steps.
* `Interrupted`, `interrupted_served` — sequences of operations, complete or stopped.
-/

namespace WebProxyPanel
open Table Effects

variable {db db' : DB}

/-! ## Active shards -/

/-- `SELECT id FROM shards WHERE active = 1` -/
def activeIds (db : DB) : Finset Int := ((db.shards.filter (·.active = 1)).map (·.id)).toFinset

theorem mem_activeIds {k : Int} :
    k ∈ activeIds db ↔ ∃ sh ∈ db.shards, sh.active = 1 ∧ sh.id = k := by
  simp [activeIds, and_assoc]

theorem activeIds_congr (h : db'.shards = db.shards) : activeIds db' = activeIds db := by
  rw [activeIds, h]
  rfl

theorem activeIds_aborted (h : Inv db) : activeIds (aborted db) = activeIds db := by
  ext k
  simp only [mem_activeIds, mem_abortedShards h]
  constructor
  · rintro ⟨sh, ⟨hsh, hact⟩, -, hid⟩
    exact ⟨sh, hsh, hact, hid⟩
  · rintro ⟨sh, hsh, hact, hid⟩
    exact ⟨sh, ⟨hsh, hact⟩, hact, hid⟩

section Stages
variable {growShards : Option Int} {restart new : List Int}

theorem Stages.shards_eq (hs : Stages growShards db restart new db') :
    ∃ ts, db'.shards = (aborted db).shards ++ new.map fun k => ⟨k, statsPort k, ts, 0⟩ := by
  obtain ⟨db₁, h₁, h₂⟩ := hs.parts
  obtain ⟨ts, hg⟩ := h₂.grown
  have hshards : db₁.shards = (aborted db).shards := by
    have := congrArg DB.shards h₁.rest
    exact this
  exact ⟨ts, by rw [hg.shards, hshards]⟩

theorem Stages.activeIds_eq (h : Inv db) (hs : Stages growShards db restart new db') :
    activeIds db' = activeIds db := by
  obtain ⟨ts, hshards⟩ := hs.shards_eq
  rw [← activeIds_aborted h]
  ext k
  simp only [mem_activeIds, hshards, List.mem_append, List.mem_map]
  constructor
  · rintro ⟨sh, hsh | ⟨k', -, rfl⟩, hact, hid⟩
    · exact ⟨sh, hsh, hact, hid⟩
    · simp at hact
  · rintro ⟨sh, hsh, hact, hid⟩
    exact ⟨sh, .inl hsh, hact, hid⟩

/-- The staged shards are new. -/
theorem Stages.new_notMem (h : Inv db) (hs : Stages growShards db restart new db') {k : Int}
    (hk : k ∈ new) : k ∉ activeIds db := by
  obtain ⟨ts, hshards⟩ := hs.shards_eq
  rw [← activeIds_aborted h, mem_activeIds]
  rintro ⟨sh, hsh, -, hid⟩
  have hnodup := hs.inv.consistent.shardId
  rw [hshards, List.map_append, List.map_map] at hnodup
  refine (List.nodup_append.1 hnodup).2.2 sh.id (List.mem_map_of_mem hsh) k ?_ hid
  exact List.mem_map.2 ⟨k, hk, rfl⟩

/-- The commit activates them. -/
theorem Stages.activeIds_committed (h : Inv db) (hs : Stages growShards db restart new db') :
    activeIds (committed db') = activeIds db ∪ new.toFinset := by
  obtain ⟨ts, hshards⟩ := hs.shards_eq
  have hids : (committed db').shards.map (·.id) = (aborted db).shards.map (·.id) ++ new := by
    have hupdate : (committed db').shards.map (·.id) = db'.shards.map (·.id) := by
      refine map_update Shard.id ?_ _
      intro _ _
      rfl
    rw [hupdate, hshards, List.map_append, List.map_map]
    congr 1
    exact List.map_id _
  have hall : activeIds (committed db') = ((committed db').shards.map (·.id)).toFinset := by
    rw [activeIds, List.filter_eq_self.2 fun sh
      hsh => by simpa using (mem_committedShards hs.inv hsh).1]
  have hold : activeIds db = ((aborted db).shards.map (·.id)).toFinset := by
    rw [← activeIds_aborted h, activeIds,
      List.filter_eq_self.2 fun sh hsh => by simpa using ((mem_abortedShards h).1 hsh).2]
  rw [hall, hold, hids, List.toFinset_append]

end Stages

/-! ## `maintain` -/

def Served (w : World) : Prop := activeIds w.db ⊆ w.units

/-- No COMMIT activates a shard whose unit is not enabled, and no unit of an active shard is
disabled. -/
def serving : Guard Action World Own :=
  watch (fun tx w => activeIds tx.copy ⊆ w.units) fun k w => k ∉ activeIds w.db

/-- At least these units are enabled. -/
def Enabled (S : Finset Int) : Known := fun _ units _ => S ⊆ units

theorem lasts_enabled (S : Finset Int) : (Enabled S).Lasts := fun _ _ _ _ _ _ h => h

section Rules
variable {ok : Allow Action Choice State} {α β : Type} {S T : Finset Int} {w w' : World}
  {l l' : Own}

theorem Still.weaken {tx : Option Tx} (h : Still (Enabled T) db tx w l) (hsub : S ⊆ T) :
    Still (Enabled S) db tx w l :=
  ⟨h.inTx, h.writer, h.db, hsub.trans h.known⟩

theorem still_outer {a : Action β} (ha : a.outer) (h : Still (Enabled S) db none w l)
    {r : Except Err β} (hn : sem.Next ok (w, l) a r (w', l')) :
    Still (Enabled S) db none w' l' := by
  obtain ⟨c, l₁, -, hr, rfl⟩ := next_respond hn
  obtain ⟨rfl, hwriter, hdb, hunits⟩ := respond_outer ha hr
  exact ⟨h.inTx, hwriter.trans h.writer, hdb.trans h.db, h.known.trans hunits⟩

/-- A program that asks only for such actions. -/
theorem still_only :
    ∀ {q : P α} {w : World} {l : Own}, q.Only Action.outer → Still (Enabled S) db none w l →
    Safe sem ok alone serving (post (fun _ => Still (Enabled S) db none) fun _ =>
      Still (Enabled S) db none) q w l
  | .ret _, _, _, _, h => Safe.retStable (stable_alone _) h
  | .raise _, _, _, _, h => Safe.raiseStable (stable_alone _) h
  | .act a k, w, l, ho, h => by
    rintro _ rfl
    refine ⟨?_, fun r w₂ l₂ hn => still_only (ho.2 r) (still_outer ho.1 h hn)⟩
    have ha := ho.1
    cases a <;> trivial

theorem still_bestEffort {q : P Unit} {K : World → Own → Prop}
    (h : Safe sem ok alone serving (post (fun _ => K) fun _ => K) q w l) :
    Safe sem ok alone serving (post (fun _ => K) fun _ => K) (bestEffort q) w l :=
  Safe.handle isRely_alone (E := fun _ => K) h fun _ _ _ hk => Safe.retStable (stable_alone _) hk

/-- Between two parts of `maintain`, outside a transaction. -/
def Serving (S : Finset Int) (w : World) (l : Own) : Prop :=
  ∃ db, Inv db ∧ activeIds db = S ∧ Still (Enabled S) db none w l

/-- Either way out. -/
def serves (S : Finset Int) : Except Err α → World → Own → Prop :=
  post (fun _ => Serving S) fun _ => Serving S

theorem serving_only {q : P α} (hq : q.Only Action.outer) (h : Serving S w l) :
    Safe sem ok alone serving (serves S) q w l := by
  obtain ⟨db, hinv, hS, hstill⟩ := h
  refine (still_only hq hstill).mono ?_
  rintro (e | a) w l hq
  · exact ⟨db, hinv, hS, hq⟩
  · exact ⟨db, hinv, hS, hq⟩

theorem serving_poolSync (h : Serving S w l) :
    Safe sem ok alone serving (serves S) poolSync w l := by
  obtain ⟨db, hinv, hS, hstill⟩ := h
  refine (still_poolSync (lasts_enabled S) (fun t w l ht h => ?_) hstill).mono ?_
  · rw [ht, hS]
    exact h.known
  · rintro (e | a) w l hq
    · exact ⟨db, hinv, hS, hq⟩
    · exact ⟨db, hinv, hS, hq⟩

theorem serving_abort (h : Serving S w l) :
    Safe sem ok alone serving (serves S) (transaction (sql abortStaged)) w l := by
  obtain ⟨db, hinv, hS, hstill⟩ := h
  refine (still_statements (lasts_enabled S) (fun a t w l hy h => ?_) hstill).mono ?_
  · rw [(yields_abortStaged hinv hy).2, activeIds_aborted hinv, hS]
    exact h.known
  · rintro (e | a) w l hq
    · exact ⟨db, hinv, hS, hq⟩
    · obtain ⟨db', hy, h⟩ := hq
      obtain ⟨-, rfl⟩ := yields_abortStaged hinv hy
      exact ⟨aborted db, inv_aborted hinv, (activeIds_aborted hinv).trans hS, h⟩

/-- A unit that no active shard needs is disabled. -/
theorem serving_disable {k : Int} (hk : k ∉ S) (h : Serving S w l) :
    Safe sem ok alone serving (serves S) (.call (.disableShard k)) w l := by
  obtain ⟨db, hinv, hS, hstill⟩ := h
  refine Safe.callStable (stable_alone _) ?_
  rintro _ rfl
  have hdone : Serving S (w.setUnits (w.units.erase k)) l :=
    ⟨db, hinv, hS, hstill.inTx, hstill.writer, hstill.db, Finset.subset_erase.2 ⟨hstill.known, hk⟩⟩
  refine ⟨?_, fun r w₂ l₂ hn => ?_⟩
  · show k ∉ activeIds w.db
    rw [hstill.db, hS]
    exact hk
  · have hnote : ∀ {w : World} {es : List Entry}, Serving S w l → Serving S w (l.note es) :=
      fun ⟨db, hinv, hS, h⟩ => ⟨db, hinv, hS, h.inTx, h.writer, h.db, h.known⟩
    have hplain : ∀ c, respond c (.disableShard k) (w, l) =
        plain c (fun w => w.setUnits (w.units.erase k)) (w, l) := fun _ => rfl
    rcases next_plain rfl hplain hn with ⟨rfl, rfl, rfl⟩ | ⟨msg, done, -, rfl, rfl, rfl⟩
    · exact hnote hdone
    · cases done with
      | true => exact hnote hdone
      | false => exact hnote ⟨db, hinv, hS, hstill⟩

/-- The handler of the `try`, where the shards that it stops are not active; it never returns. -/
theorem serving_rollBack (a : ApplyArgs) (previous : List (Path × Option Content)) (error : Err)
    (hnew : ∀ k ∈ a.newShards, k ∉ S) (h : Serving S w l) :
    Safe sem ok alone serving (post (fun _ _ _ => False) fun _ => Serving S)
      (rollBack a previous error) w l := by
  unfold rollBack
  simp only [Prog.bind_eq]
  refine Safe.seq isRely_alone (serving_only (only_bestEffort (outer_restore previous)) h) fun _
    w₁ l₁ h₁ => ?_
  refine Safe.seq isRely_alone
    (Safe.forM isRely_alone (I := fun _ => Serving S) (by rintro pre w l _ rfl h; exact h)
    (fun pre k suf hsplit w l h => still_bestEffort ?_) h₁) fun _ w₂ l₂ h₂ => ?_
  · have hk : k ∈ a.newShards := by
      rw [hsplit]
      exact List.mem_append_right _ List.mem_cons_self
    exact Safe.seq isRely_alone (serving_only (Prog.Only.call trivial) h) fun _ w l h =>
      serving_disable (hnew k hk) h
  refine Safe.seq isRely_alone (serving_abort h₂) fun _ w₃ l₃ h₃ => ?_
  refine Safe.seq isRely_alone (serving_only (only_bestEffort (outer_restarts _)) h₃) fun _
    w₄ l₄ h₄ => ?_
  refine Safe.seq isRely_alone (K := fun _ => Serving S) ?_ fun _ w₅ l₅ h₅ => ?_
  · unfold Prog.runIf
    split
    · exact still_bestEffort (serving_poolSync h₄)
    · exact Safe.retStable (stable_alone _) h₄
  · split
    · exact Safe.raiseStable (stable_alone _) h₅
    · exact Safe.raiseStable (stable_alone _) h₅

/-- A unit is enabled. -/
theorem still_enable (k : Int) (h : Still (Enabled T) db none w l) :
    Safe sem ok alone serving (post (fun _ => Still (Enabled (insert k T)) db none) fun _ =>
      Still (Enabled T) db none)
      (.call (.enableShard k)) w l := by
  refine Safe.callStable (stable_alone _) ?_
  rintro _ rfl
  refine ⟨trivial, fun r w₂ l₂ hn => ?_⟩
  have hplain : ∀ c, respond c (.enableShard k) (w, l) =
      plain c (fun w => w.setUnits (insert k w.units)) (w, l) := fun _ => rfl
  rcases next_plain rfl hplain hn with ⟨rfl, rfl, rfl⟩ | ⟨msg, done, -, rfl, rfl, rfl⟩
  · exact ⟨h.inTx, h.writer, h.db, Finset.insert_subset_insert k h.known⟩
  · cases done with
    | true => exact ⟨h.inTx, h.writer, h.db, h.known.trans (Finset.subset_insert k _)⟩
    | false => exact ⟨h.inTx, h.writer, h.db, h.known⟩

/-- When the body of the `try` returns, the units of the new shards are enabled. -/
theorem still_applySteps (a : ApplyArgs) (targets : List (Path × Content)) (hS : activeIds db = S)
    (h : Still (Enabled S) db none w l) :
    Safe sem ok alone serving
      (post (fun _ => Still (Enabled (S ∪ a.newShards.toFinset)) db none) fun _ =>
        Still (Enabled S) db none)
      (applySteps a targets) w l := by
  have hsub : S ⊆ S ∪ a.newShards.toFinset := Finset.subset_union_left
  -- what follows the enabling of the units
  have hrest : ∀ {β : Type} {q : P β} {w l}, q.Only Action.outer →
      Still (Enabled (S ∪ a.newShards.toFinset)) db none w l →
      Safe sem ok alone serving
      (post (fun _ => Still (Enabled (S ∪ a.newShards.toFinset)) db none) fun _ =>
      Still (Enabled S) db none) q w l := by
    intro β q w l hq h
    refine (still_only hq h).mono ?_
    rintro (e | x) w l h
    · exact h.weaken hsub
    · exact h
  unfold applySteps
  simp only [Prog.bind_eq]
  refine Safe.seq isRely_alone
    (still_only (Prog.Only.forM (fun _ => Prog.Only.call trivial) targets) h) fun _ w₁ l₁ h₁ => ?_
  refine Safe.seq isRely_alone (K := fun _ => Still (Enabled (S ∪ a.newShards.toFinset)) db none) ?_
    fun _ w₂ l₂ h₂ => ?_
  · by_cases hnew : a.newShards = []
    · rw [Prog.runIf, if_neg (not_not.2 hnew), hnew, List.toFinset_nil, Finset.union_empty]
      exact Safe.retStable (stable_alone _) h₁
    · rw [Prog.runIf, if_pos hnew]
      refine Safe.seq isRely_alone (still_poolSync (lasts_enabled S) (fun t w l ht h => ?_) h₁)
        fun _ w₂ l₂ h₂ => ?_
      · rw [ht, hS]
        exact h.known
      have hnil : S ∪ ([] : List Int).toFinset = S := by simp
      refine Safe.forM isRely_alone (I := fun pre => Still (Enabled (S ∪ pre.toFinset)) db none)
        (by rintro pre w l _ rfl h; exact h)
        (fun pre k suf _ w l h => (still_enable k h).mono ?_) (by rw [hnil]; exact h₂)
      rintro (e | x) w l h
      · exact h.weaken Finset.subset_union_left
      · refine h.weaken ?_
        rw [List.toFinset_append, List.toFinset_cons, List.toFinset_nil, insert_empty_eq,
          ← Finset.union_assoc, Finset.union_comm _ {k}]
        exact subset_of_eq (Finset.insert_eq k _).symm
  refine Safe.seq isRely_alone
    (hrest (Prog.Only.forM (fun _ => Prog.Only.call trivial) a.shards) h₂) fun _ w₃ l₃ h₃ => ?_
  exact hrest (Prog.Only.bind (Prog.Only.call trivial) fun _ =>
    Prog.Only.bind (Prog.Only.call trivial) fun _ => Prog.Only.runIf trivial) h₃

/-- After it, with any rows. -/
def Over (S : Finset Int) (w : World) (l : Own) : Prop :=
  ∃ db, Inv db ∧ Still (Enabled S) db none w l

theorem Serving.over (h : Serving S w l) : Over S w l := by
  obtain ⟨db, hinv, -, h⟩ := h
  exact ⟨db, hinv, h⟩

/-- `apply` of staged rows. -/
theorem served_apply (cfg : Config) (sizing : Sizing) {growShards : Option Int}
    {restart new : List Int} (hinv : Inv db) (hs : Stages growShards db restart new db')
    (h : Still (Enabled (activeIds db)) db' none w l) :
    Safe sem ok alone serving (post (fun _ => Over (activeIds db)) fun _ => Over (activeIds db))
      (apply cfg sizing restart new) w l := by
  have hS : activeIds db' = activeIds db := hs.activeIds_eq hinv
  have hserving : ∀ {w l}, Still (Enabled (activeIds db)) db' none w l →
      Serving (activeIds db) w l := fun h => ⟨db', hs.inv, hS, h⟩
  -- an outer part, and the way out of it
  have houter : ∀ {α : Type} {q : P α} {w l}, q.Only Action.outer →
      Still (Enabled (activeIds db)) db' none w l →
      Safe sem ok alone serving (post (fun _ => Still (Enabled (activeIds db)) db' none) fun _ =>
        Over (activeIds db)) q w l := by
    intro α q w l hq h
    refine (still_only hq h).mono ?_
    rintro (e | x) w l h
    · exact (hserving h).over
    · exact h
  unfold apply
  simp only [Prog.bind_eq]
  refine Safe.seq isRely_alone (houter (outer_renderAll _) h) fun rendered w₁ l₁ h₁ => ?_
  refine Safe.seq isRely_alone (houter (outer_checkCandidates rendered) h₁) fun x w₂ l₂ h₂ => ?_
  split
  · refine Safe.seq isRely_alone ((serving_abort (hserving h₂)).mono ?_)
      (K := fun _ => Over (activeIds db)) fun _ w₃ l₃ h₃ => ?_
    · rintro (e | x) w l h
      · exact h.over
      · exact h.over
    · exact Safe.raiseStable (stable_alone _) h₃
  unfold applyTargets
  simp only [Prog.bind_eq]
  refine Safe.seq isRely_alone (houter (outer_readFiles _) h₂) fun previous w₃ l₃ h₃ => ?_
  generalize ha : (⟨cfg, sizing, new, sortedSet (restart ++ new)⟩ : ApplyArgs) = a
  have hnew : a.newShards = new := by rw [← ha]
  refine Safe.seq isRely_alone
    (K := fun _ => Still (Enabled (activeIds db ∪ new.toFinset)) db' none) ?_ fun _ w₄ l₄ h₄ => ?_
  · refine Safe.handle isRely_alone (E := fun _ => Still (Enabled (activeIds db)) db' none) ?_
      fun e w l h => ?_
    · exact hnew ▸ still_applySteps a rendered.targets hS h₃
    · refine (serving_rollBack a previous e (fun k hk => hs.new_notMem hinv (hnew ▸ hk))
        (hserving h)).mono ?_
      rintro (e | x) w l h
      · exact h.over
      · exact h.elim
  · have hsub : activeIds db ⊆ activeIds db ∪ new.toFinset := Finset.subset_union_left
    refine (still_statements (lasts_enabled _) (fun x t w l hy h => ?_) h₄).mono ?_
    · -- the one COMMIT that activates shards
      obtain ⟨-, ts, hcopy⟩ := yields_commitRows a hs.inv hy
      rw [hcopy]
      show activeIds (committed db') ⊆ w.units
      rw [hs.activeIds_committed hinv]
      exact h.known
    · rintro (e | x) w l hq
      · exact ⟨db', hs.inv, hq.weaken hsub⟩
      · obtain ⟨db₂, hy, h⟩ := hq
        obtain ⟨-, ts, rfl⟩ := yields_commitRows a hs.inv hy
        exact ⟨_, Users.inv_addEvent (inv_committed hs.inv) _ _ _ _, h.weaken hsub⟩

theorem served_maintain (cfg : Config) (sizing : Sizing) (growShards : Option Int) (hinv : Inv db)
    (h : Still (Enabled (activeIds db)) db none w l) :
    Safe sem ok alone serving (post (fun _ => Over (activeIds db)) fun _ => Over (activeIds db))
      (maintain cfg sizing growShards) w l := by
  refine still_applyLock (lasts_enabled _) (E := Inv) (fun w₁ l₁ h₁ => ?_) hinv h
  simp only [Prog.bind_eq]
  refine Safe.seq isRely_alone
    ((still_statements (lasts_enabled _) (fun x t w l hy h => ?_) h₁).mono ?_)
    (K := fun x w l => ∃ db', Stages growShards db x.1 x.2 db' ∧
      Still (Enabled (activeIds db)) db' none w l) ?_
  · have hs : Stages growShards db x.1 x.2 t.copy := yields_stageRows hinv hy
    rw [hs.activeIds_eq hinv]
    exact h.known
  · rintro (e | x) w l hq
    · exact ⟨db, hinv, hq⟩
    · obtain ⟨db', hy, h⟩ := hq
      exact ⟨db', yields_stageRows hinv hy, h⟩
  rintro ⟨restart, new⟩ w₂ l₂ ⟨db', hs, h₂⟩
  dsimp only
  split
  · exact Safe.retStable (stable_alone _) ⟨db', hs.inv, h₂⟩
  have hcount : (Prog.call (.query pendingCount) : P Int).Only Action.outer :=
    Prog.Only.call trivial
  refine Safe.seq isRely_alone ((still_only hcount h₂).mono ?_)
    (K := fun _ => Still (Enabled (activeIds db)) db' none) fun rotated w₃ l₃ h₃ => ?_
  · rintro (e | x) w l h
    · exact ⟨db', hs.inv, h⟩
    · exact h
  exact Safe.seq isRely_alone (served_apply cfg sizing hinv hs h₃) fun _ w₄ l₄ h₄ =>
    Safe.retStable (stable_alone _) h₄

end Rules

/-- One action under the guard. -/
theorem Served.next {ok : Allow Action Choice State} {β : Type} {a : Action β} {r : Except Err β}
    {w w' : World} {l l' : Own} (h : Served w) (hg : serving w l a)
    (hn : sem.Next ok (w, l) a r (w', l')) : Served w' := by
  obtain ⟨c, l₁, -, hr, -⟩ := next_respond hn
  have hkeep : (w'.db = w.db ∧ w.units ⊆ w'.units) → Served w' := by
    rintro ⟨hdb, hunits⟩
    unfold Served
    rw [hdb]
    exact h.trans hunits
  cases a with
  | commit =>
    simp only [respond] at hr
    split at hr
    · rename_i tx htx
      obtain ⟨-, rfl, -⟩ := by simpa using hr
      exact hg tx htx
    · rename_i tx msg gone left htx
      cases gone <;> simp at hr <;> obtain ⟨-, rfl, -⟩ := hr <;> exact h
    · obtain ⟨-, rfl, -⟩ := by simpa using hr
      exact h
    · simp at hr
  | disableShard k =>
    have herase : Served (w.setUnits (w.units.erase k)) := Finset.subset_erase.2 ⟨h, hg⟩
    simp only [respond, plain] at hr
    split at hr
    · obtain ⟨-, rfl, -⟩ := by simpa using hr
      exact herase
    · rename_i msg done
      obtain ⟨-, rfl, -⟩ := by simpa using hr
      cases done with
      | true => exact herase
      | false => exact h
    · simp at hr
  | _ =>
    refine hkeep ?_
    simp only [respond, plain, read, runSql] at hr
    grind [World.rollback, World.begin_, World.fwCall, World.replace, World.setFile, World.setUnits,
      World.setLock, Finset.subset_insert]

/-! ## The other operations -/

theorem unlocked_inner {β : Type} (a : Action β) (h : a.inner) : a.unlocked := by
  cases a <;> trivial

open Users in
/-- Only `maintain` takes the lock. -/
theorem unlocked_program {op : Op}
    (hop : ∀ cfg sizing growShards, op ≠ .maintain cfg sizing growShards) :
    op.program.Only Action.unlocked := by
  have hsql : ∀ {α : Type} (m : Sql α), (sql m).Only Action.unlocked :=
    fun m => Prog.Only.call trivial
  have hblock : ∀ ports, (block ports).Only Action.unlocked := by
    intro ports
    unfold block
    split
    · trivial
    · exact Prog.Only.call trivial
  have hunblock : ∀ ports, (unblock ports).Only Action.unlocked := by
    intro ports
    unfold unblock
    split
    · trivial
    · exact Prog.Only.call trivial
  have hmaybe : ∀ userId reason, (maybeReenable userId reason).Only Action.unlocked := by
    refine fun userId reason => Prog.Only.bind (hsql _) fun ports => ?_
    cases ports with
    | none => trivial
    | some ports => exact hunblock ports
  have hsetExpiry : ∀ userId expiresAt enableNow,
      (setExpiry userId expiresAt enableNow).Only Action.unlocked :=
    fun userId expiresAt enableNow => only_change unlocked_inner
      (Prog.Only.bind (hsql _) fun _ => Prog.Only.runIf (hmaybe _ _))
  cases op with
  | createUser a =>
    refine Prog.Only.bind (Prog.Only.bind ?_ fun x => ?_) fun _ => trivial
    · cases a.check <;> trivial
    refine Prog.Only.bind (Prog.Only.call trivial) fun t =>
      only_change unlocked_inner (Prog.Only.bind (hsql _) fun y => ?_)
    exact Prog.Only.bind (hunblock _) fun _ => trivial
  | addDevice userId createdBy name =>
    refine Prog.Only.bind ?_ fun _ => trivial
    unfold addDevice
    split
    · trivial
    · refine only_change unlocked_inner (Prog.Only.bind (hsql _) fun x => ?_)
      exact Prog.Only.bind (Prog.Only.runIf (hunblock _)) fun _ => trivial
  | deleteDevice deviceId by_ =>
    exact only_change unlocked_inner (Prog.Only.bind (hsql _) fun _ => hblock _)
  | rotateDevice deviceId =>
    refine only_change unlocked_inner (Prog.Only.bind (hsql _) fun x => ?_)
    exact Prog.Only.bind (hblock _) fun _ => Prog.Only.runIf (hunblock _)
  | renameDevice deviceId name => exact only_transaction unlocked_inner (hsql _)
  | disableUser userId reason =>
    refine Prog.Only.bind ?_ fun _ => trivial
    unfold disableUser
    split
    · trivial
    · refine only_change unlocked_inner (Prog.Only.bind (hsql _) fun ports => ?_)
      cases ports with
      | none => trivial
      | some ports => exact Prog.Only.bind (hblock _) fun _ => trivial
  | enableUser userId =>
    refine Prog.Only.bind (only_change unlocked_inner (Prog.Only.bind (hsql _) fun ports => ?_))
      fun _ => trivial
    cases ports with
    | none => trivial
    | some ports => exact Prog.Only.bind (hunblock _) fun _ => trivial
  | setExpiry userId expiresAt enableNow => exact hsetExpiry userId expiresAt enableNow
  | extend userId days enableNow =>
    refine Prog.Only.bind ?_ fun _ => trivial
    unfold extend
    split
    · trivial
    · refine only_change unlocked_inner (Prog.Only.bind (hsql _) fun expiresAt => ?_)
      exact Prog.Only.bind (hsetExpiry _ _ _) fun _ => trivial
  | setTrafficLimit userId limitBytes reset enableNow =>
    show (setTrafficLimit userId limitBytes reset enableNow).Only Action.unlocked
    unfold setTrafficLimit
    split
    · trivial
    split
    · trivial
    · exact only_change unlocked_inner (Prog.Only.bind (hsql _) fun _ =>
        Prog.Only.runIf (hmaybe _ _))
  | updateProfile userId a => exact only_transaction unlocked_inner (hsql _)
  | deleteUser userId =>
    exact only_change unlocked_inner (Prog.Only.bind (hsql _) fun _ => hblock _)
  | maintain cfg sizing growShards => exact absurd rfl (hop cfg sizing growShards)
  | sync => exact only_syncFirewall unlocked_inner

/-- A step without the lock leaves shards and units alone. -/
theorem Served.does {ok : Allow Action Choice State} {m : Mode} {w w' : World} {l l' : Own}
    (h : Served w) (hlock : l.locked = false) (hlock' : l'.locked = false)
    (hd : Does ok m w l w' l') : Served w' := by
  cases hd with
  | commit tx es htx hc _ =>
    show activeIds tx.copy ⊆ w.units
    rw [activeIds_congr (hc.frame hlock).shards]
    exact h
  | file p data es hl _ => simp [hlock] at hl
  | units units es hl => simp [hlock] at hl
  | lock es _ _ => simp at hlock'
  | unlock es hl _ => simp [hlock] at hl
  | _ => exact h

/-! ## Sequences of operations -/

/-- Operations one after the other, each by a process that has made `n` firewall calls so far:
complete, or stopped between two of its steps. `P` says which, and with which outcome. -/
inductive Interrupted (ok : Allow Action Choice State) (P : Op → Option (Except Err Unit) → Prop) :
    World → World → Prop
  | refl (w : World) : Interrupted ok P w w
  | ran {w w₁ w₂ : World} (op : Op) (n : Nat) (out : Except Err Unit) (l : Own) :
      Interrupted ok P w w₁ → P op (some out) →
      sem.Runs ok op.program (w₁, Own.idle n) out (w₂, l) → Interrupted ok P w w₂
  | stopped {w w₁ : World} (op : Op) (n : Nat) (q : Prog Action Err Unit) (s : State) :
      Interrupted ok P w w₁ → P op none →
      sem.Steps ok op.program (w₁, Own.idle n) q s → Interrupted ok P w (crash s).1

section Interrupted
variable {ok : Allow Action Choice State} {P : Op → Option (Except Err Unit) → Prop} {w w' : World}

/-- What steps without the lock keep, an operation other than `maintain` keeps. -/
theorem unlocked_keeps {op : Op}
    (hop : ∀ cfg sizing growShards, op ≠ .maintain cfg sizing growShards) {J : World → Prop}
    (hJ : ∀ {w w' : World} {l l' : Own}, J w → l.locked = false → l'.locked = false →
      Does ok (op.mode true) w l w' l' → J w')
    {n : Nat} {q : Prog Action Err Unit} {s : State} (hw : Resting w) (h : J w)
    (hs : sem.Steps ok op.program (w, Own.idle n) q s) : J s.1 := by
  have hsafe := @safe_program ok true w _ (hw.ready n) op
  refine (Safe.steps_keep_only (J := fun s => s.2.locked = false ∧ J s.1) isRely_interferes ?_
    (unlocked_program hop) hsafe hs ⟨rfl, h⟩).2
  rintro ⟨w₁, l₁⟩ ⟨w₂, l₂⟩ β a r ⟨hlock, hj⟩ ha hg hn
  obtain ⟨c, l₃, -, hr, hl⟩ := next_respond hn
  have hlock₃ : l₃.locked = false := respond_unlocked ha hr hlock
  have hlock' : l₂.locked = false := by
    rw [hl]
    exact hlock₃
  exact ⟨hlock', hJ hj hlock hlock' (does_of_next hg hn)⟩

/-- An operation, run any part of the way. -/
theorem served_steps {op : Op} {n : Nat} {q : Prog Action Err Unit} {s : State} (hw : Resting w)
    (h : Served w) (hs : sem.Steps ok op.program (w, Own.idle n) q s) : Served s.1 := by
  by_cases hop : ∀ cfg sizing growShards, op ≠ .maintain cfg sizing growShards
  · exact unlocked_keeps hop (fun hserved hlock hlock' hd => hserved.does hlock hlock' hd) hw h hs
  · simp only [not_forall, not_not] at hop
    obtain ⟨cfg, sizing, growShards, rfl⟩ := hop
    have hstill : Still (Enabled (activeIds w.db)) w.db none w (Own.idle n) :=
      ⟨rfl, hw.writer, rfl, h⟩
    have hsafe : Safe sem ok alone serving (fun _ _ _ => True)
        (Op.maintain cfg sizing growShards).program w (Own.idle n) := by
      refine Safe.seq isRely_alone (K := fun _ _ _ => True)
        ((served_maintain cfg sizing growShards hw.world.1 hstill).mono ?_)
        fun _ _ _ _ => Safe.retStable (stable_alone _) trivial
      rintro (e | x) w l _
      · trivial
      · trivial
    exact Safe.steps_keep isRely_alone (J := fun s => Served s.1)
      (fun s s' β a r hj hg hn => hj.next hg hn) hsafe hs h

/-- Whatever fails and wherever operations stop, no active shard is without its unit. -/
theorem interrupted_served (hw : Resting w) (h : Served w) (hc : Interrupted ok P w w') :
    Resting w' ∧ Served w' := by
  induction hc with
  | refl => exact ⟨hw, h⟩
  | ran op n out l _ _ hrun ih => exact ⟨(resting_runs ih.1 hrun).1, served_steps ih.1 ih.2 hrun⟩
  | stopped op n q s _ _ hs ih =>
    refine ⟨resting_crash ih.1 hs, ?_⟩
    have hserved := served_steps ih.1 ih.2 hs
    unfold crash
    split <;> split <;> exact hserved

theorem served_initial : Served World.initial := by
  intro k hk
  obtain ⟨sh, hsh, -⟩ := mem_activeIds.1 hk
  simp [World.initial, DB.empty] at hsh

end Interrupted

end WebProxyPanel
