import WebProxyPanel.Applied
import WebProxyPanel.People
/-!
# All or nothing

`apply` keeps its promise when nothing fails, when the relay rejects the candidates, and when a step
of its `try` fails: the handler puts the old files back and discards the staged rows. Any other
failure is outside the `try`: then the staged rows stay.

* `Same`, `Discarded` — the files of the beginning, with the staged rows and without them.
* `AllOrNothing` — the promise.
-/

namespace WebProxyPanel
open Effects Sql

section Rules
variable {ok : Allow Action Choice State} {v : Pool} {p : Phase} {w : World} {l : Own} {α : Type}

/-- After a failure nothing else fails. -/
theorem alone_sure (hone : OneFault ok) {handled : Bool} {p' : Phase} {I : Pool → Prop}
    {K : α → World → Own → Prop} {q : P α}
    (h : Safe sem ok alone (eligible ok) (post K (Fails ok (.failed handled) p' I)) q w l) :
    Safe sem ok alone (eligible ok) (post K fun _ _ _ => False) q w l := by
  refine h.mono ?_
  rintro (e | a) w l hq
  · exact Fails.elim (e := e) hone hq
  · exact hq

theorem alone_bestEffort {q : P Unit} {K : World → Own → Prop}
    (h : Safe sem ok alone (eligible ok) (post (fun _ => K) fun _ _ _ => False) q w l) :
    Safe sem ok alone (eligible ok) (post (fun _ => K) fun _ _ _ => False) (bestEffort q) w l :=
  Safe.handle isRely_alone h fun _ _ _ hf => hf.elim

/-- The files and the database of `v`, after a failure. -/
def Same (v : Pool) (w : World) (l : Own) : Prop :=
  ∃ u, u.db = v.db ∧ u.files = v.files ∧ At none u (.failed true) w l

/-- A call that changes at most units. -/
theorem alone_same (hone : OneFault ok) {a : Action Unit} {call : Call}
    (hcall : a.call? = some call) (effect : World → World)
    (ha : ∀ c s, respond c a s = plain c effect s) (hw : ∀ w, (effect w).writer = w.writer)
    (hdb : ∀ w, (effect w).db = w.db) (hfiles : ∀ w, (effect w).files = w.files) (h : Same v w l) :
    Safe sem ok alone (eligible ok) (post (fun _ => Same v) fun _ _ _ => False) (.call a) w l := by
  obtain ⟨u, hudb, hufiles, hat⟩ := h
  have hpool := Pool.mk.inj hat.pool
  have hv : w.pool = u → (effect w).pool = (effect w).pool := fun _ => rfl
  have hcall' := alone_sure hone (alone_plain effect hcall (fun c => ha c _) (hw w) hv hat)
  refine hcall'.mono ?_
  rintro (e | a) w₁ l₁ hq
  · exact hq
  · have hq : At none (effect w).pool ((Phase.failed true).next ⟨call, .ok⟩) w₁ l₁ := hq
    rw [Phase.next_failed] at hq
    exact ⟨(effect w).pool, (hdb w).trans (hpool.1.trans hudb),
      (hfiles w).trans (hpool.2.1.trans hufiles), hq⟩

theorem alone_sameLoop {f : Int → P Unit}
    (hf : ∀ k {w l}, Same v w l →
      Safe sem ok alone (eligible ok) (post (fun _ => Same v) fun _ _ _ => False) (f k) w l)
    (ks : List Int) (h : Same v w l) :
    Safe sem ok alone (eligible ok) (post (fun _ => Same v) fun _ _ _ => False) (ks.forM f) w l :=
  Safe.forM isRely_alone (I := fun _ => Same v) (by rintro pre w l _ rfl h; exact h)
    (fun _ k _ _ _ _ h => hf k h) h

/-- `restore`: what is not restored yet is among the paths that are left. -/
theorem alone_restore (hone : OneFault ok) : ∀ (paths : List Path) {u : Pool} {w : World} {l : Own},
    At none u (.failed true) w l → Pool.Off paths v u →
    Safe sem ok alone (eligible ok) (post (fun _ => Same v) fun _ _ _ => False)
      (restore (paths.map fun path => (path, v.files path))) w l
  | [], u, w, l, h, hoff =>
    Safe.retStable (stable_alone _) ⟨u, hoff.1, funext fun path => hoff.2 path (by simp), h⟩
  | path :: paths, u, w, l, h, hoff => by
    have hnext : ∀ data, data = v.files path → Pool.Off paths v (u.setFile path data) := by
      rintro data rfl
      refine ⟨hoff.1, fun q hq => ?_⟩
      by_cases hqp : q = path
      · simp [Pool.setFile, hqp]
      · simp only [Pool.setFile, if_neg hqp]
        exact hoff.2 q (by simp [hqp, hq])
    unfold restore
    rw [List.map_cons]
    cases hfile : v.files path with
    | none =>
      show Safe _ _ _ _ _ (Prog.bind (Prog.call (.removeFile path)) fun _ =>
          restore (paths.map fun path => (path, v.files path))) w l
      exact Safe.seq isRely_alone (alone_sure hone (alone_removeFile path h)) fun _ w₁ l₁ h₁ =>
        alone_restore hone paths h₁ (hnext none hfile.symm)
    | some data =>
      show Safe _ _ _ _ _ (Prog.bind (Prog.call (.writeFile path data)) fun _ =>
          restore (paths.map fun path => (path, v.files path))) w l
      refine Safe.seq isRely_alone (alone_sure hone (alone_writeFile path data h)) fun _ w₁ l₁ h₁ =>
        ?_
      rw [Phase.next_failed] at h₁
      exact alone_restore hone paths h₁ (hnext (some data) hfile.symm)

/-- The files of `v`, and its database without staged rows. -/
def discarded (v : Pool) : Pool := { v with db := aborted v.db }

theorem yields_abortStaged {db db' : DB} (hinv : Inv db) {r : Except Err Unit}
    (h : Yields abortStaged db r db') : r = .ok () ∧ db' = aborted db := by
  obtain ⟨inp, hhex, hr⟩ := h
  have hwp := abortStaged_wp (D := fun v => isTokenHex v = true) hinv
      (Q := fun _ db' => db' = aborted db) rfl
  cases r with
  | ok a => exact ⟨rfl, (wp.of_ok hwp hhex hr).1⟩
  | error e => exact absurd hr (onlyIntegrity_abortStaged.ne_error hwp hhex)

/-- `abort_staged` in its transaction. -/
theorem alone_abort (hinv : Inv v.db) (h : At none v p w l) :
    Safe sem ok alone (eligible ok)
      (post (fun _ => At none (discarded v) p) (Fails ok p p.fails (· = v)))
      (transaction (sql abortStaged)) w l := by
  refine (alone_statements (fed_abortStaged v.db) h).mono ?_
  rintro (e | a) w l hq
  · intro hone
    obtain ⟨p', hs | ⟨⟨db', hy⟩, -⟩, hat⟩ := hq hone
    · exact ⟨hs.1, v, rfl, hs.2 ▸ hat⟩
    · exact absurd (yields_abortStaged hinv hy).1 (by simp)
  · obtain ⟨db', hy, hat⟩ := hq
    rw [(yields_abortStaged hinv hy).2] at hat
    exact hat

/-- The handler of the `try`. -/
theorem alone_rollBack (hone : OneFault ok) (a : ApplyArgs) (error : Err) {paths : List Path}
    (hinv : Inv v.db) {u : Pool} (hoff : Pool.Off paths v u) (h : At none u (.failed true) w l) :
    Safe sem ok alone (eligible ok) (post (fun _ _ _ => False) fun e w l => e.isPoolError = true ∧
      Same (discarded v) w l)
      (rollBack a (paths.map fun path => (path, v.files path)) error) w l := by
  have hrestart : ∀ {v : Pool} (k : Int) {w l}, Same v w l → Safe sem ok alone (eligible ok)
      (post (fun _ => Same v) fun _ _ _ => False) (.call (.restartShard k)) w l := fun k _ _ h =>
    alone_same hone rfl id (fun _ _ => rfl) (fun _ => rfl) (fun _ => rfl) (fun _ => rfl) h
  have hfalse : ∀ e w l, (fun (_ : Err) (_ : World) (_ : Own) => False) e w l →
      e.isPoolError = true ∧ Same (discarded v) w l :=
    fun _ _ _ hf => hf.elim
  unfold rollBack
  simp only [Prog.bind_eq]
  -- the files
  refine alone_seq (alone_bestEffort (alone_restore hone paths h hoff)) hfalse fun _ w₁ l₁ h₁ => ?_
  -- the new units
  refine alone_seq (alone_sameLoop (fun k {w l} h => alone_bestEffort ?_) a.newShards h₁) hfalse
    fun _ w₂ l₂ h₂ => ?_
  · refine Safe.seq isRely_alone
      (alone_same hone (a := .stopShard k) rfl id (fun _ _ => rfl) (fun _ => rfl) (fun _ => rfl)
      (fun _ => rfl) h) fun _ w₁ l₁ h₁ => ?_
    exact alone_same hone (a := .disableShard k) rfl (fun w => w.setUnits (w.units.erase k))
      (fun _ _ => rfl) (fun _ => rfl) (fun _ => rfl) (fun _ => rfl) h₁
  -- the staged rows
  obtain ⟨u₂, hdb, hfiles, hat⟩ := h₂
  have hinv₂ : Inv u₂.db := hdb ▸ hinv
  refine alone_seq (alone_sure hone (alone_abort hinv₂ hat)) hfalse fun _ w₃ l₃ h₃ => ?_
  have h₃ : Same (discarded v) w₃ l₃ := ⟨discarded u₂, by simp [discarded, hdb], hfiles, h₃⟩
  -- the old configuration again
  refine alone_seq (alone_bestEffort
    (Safe.seq isRely_alone (alone_sameLoop hrestart _ h₃) fun _ w₄ l₄ h₄ =>
    alone_same hone (a := .restartRelay) rfl id (fun _ _ => rfl) (fun _ => rfl) (fun _ => rfl)
      (fun _ => rfl) h₄)) hfalse
    fun _ w₅ l₅ h₅ => ?_
  have hsync : Safe sem ok alone (eligible ok)
      (post (fun _ => Same (discarded v)) fun _ _ _ => False)
      (Prog.runIf (a.newShards ≠ []) (bestEffort poolSync)) w₅ l₅ := by
    unfold Prog.runIf
    split
    · obtain ⟨u₅, hdb₅, hfiles₅, hat₅⟩ := h₅
      refine alone_bestEffort
        ((alone_sure hone (alone_poolSync (hdb₅ ▸ inv_aborted hinv) hat₅)).mono ?_)
      rintro (e | a) w l hq
      · exact hq
      · exact ⟨u₅, hdb₅, hfiles₅, hq⟩
    · exact Safe.retStable (stable_alone _) h₅
  refine alone_seq hsync hfalse fun _ w₆ l₆ h₆ => ?_
  split
  · rename_i hpool
    exact Safe.raiseStable (stable_alone _) ⟨hpool, h₆⟩
  · exact Safe.raiseStable (stable_alone _) ⟨rfl, h₆⟩

/-- It raises whatever happens. -/
theorem neverReturns_rollBack (a : ApplyArgs) (previous : List (Path × Option Content))
    (error : Err) : (rollBack a previous error).NeverReturns := by
  unfold rollBack
  simp only [Prog.bind_eq]
  refine .bind (fun _ =>
    .bind (fun _ => .bind (fun _ => .bind (fun _ => .bind (fun _ => ?_) _) _) _) _) _
  split
  · trivial
  · trivial

/-! ## The whole -/

/-- What the final transaction commits. -/
def commitRows (a : ApplyArgs) : Sql Unit := do
  commitStaged
  logEvent "pool_applied" none ("shards=" ++ joinOr a.shards ++ " new=" ++ joinOr a.newShards)

def appliedEvent (a : ApplyArgs) (ts : Int) (db : DB) : DB :=
  DB.addEvent ts "pool_applied" none ("shards=" ++ joinOr a.shards ++ " new=" ++ joinOr a.newShards)
    (committed db)

theorem yields_commitRows (a : ApplyArgs) {db db' : DB} (hinv : Inv db) {r : Except Err Unit}
    (h : Yields (commitRows a) db r db') : r = .ok () ∧ ∃ ts, db' = appliedEvent a ts db := by
  obtain ⟨inp, hhex, hr⟩ := h
  have hwp : (commitRows a).wp (fun v => isTokenHex v = true)
      (fun _ db' => ∃ ts, db' = appliedEvent a ts db) db :=
    wp.bind (commitStaged_wp hinv
      (Users.wp_logEvent (M := fun _ _ => True) (UserStep.refl (inv_committed hinv)) fun ts _ =>
      ⟨ts, rfl⟩))
  have honly : OnlyIntegrity (commitRows a) :=
    OnlyIntegrity.bind onlyIntegrity_commitStaged fun _ => onlyIntegrity_logEvent _ _ _
  cases r with
  | ok _ => exact ⟨rfl, (wp.of_ok hwp hhex hr).1⟩
  | error e => exact absurd hr (honly.ne_error hwp hhex)

theorem alone_commitApplied (a : ApplyArgs) (hinv : Inv v.db) (h : At none v p w l) :
    Safe sem ok alone (eligible ok)
      (post (fun _ w l => ∃ ts, At none { v with db := appliedEvent a ts v.db } p w l)
      (Fails ok p p.fails (· = v))) (commitApplied a) w l := by
  have hfed : Fed (commitRows a) v.db := .bind framed_commitStaged (fed_commitStaged v.db) fun _ _ _
      _ _ _ => fed_logEvent _ _ _ _
  refine (alone_statements hfed h).mono ?_
  rintro (e | x) w l hq
  · intro hone
    obtain ⟨p', hs | ⟨⟨db', hy⟩, -⟩, hat⟩ := hq hone
    · exact ⟨hs.1, v, rfl, hs.2 ▸ hat⟩
    · exact absurd (yields_commitRows a hinv hy).1 (by simp)
  · obtain ⟨db', hy, hat⟩ := hq
    obtain ⟨ts, rfl⟩ := (yields_commitRows a hinv hy).2
    exact ⟨ts, hat⟩

/-- What `apply` has put into place when it returns. -/
def Pool.applied (a : ApplyArgs) (ts : Int) (v : Pool) : Pool :=
  { (v.cleared.write (rendered a v.db).targets).enable a.newShards with db := appliedEvent a ts v.db }

/-- How `apply` raises: rolled back; after a failure that it does not handle; because rows of a
shard are missing. -/
def ApplyFails (ok : Allow Action Choice State) (a : ApplyArgs) (v : Pool) (e : Err) (w : World)
    (l : Own) : Prop :=
  OneFault ok →
    (Whole a.shards v.db ∧ e.isPoolError = true ∧ Same (discarded v.cleared) w l) ∨
    (∃ u, u.db = v.db ∧ At none u (.failed false) w l) ∨
    ¬ Whole a.shards v.db ∧ ∃ u, u.db = v.db ∧ At none u .checking w l

theorem alone_applyTargets (a : ApplyArgs) (hinv : Inv v.db) (hwhole : Whole a.shards v.db)
    (h : At none v.cleared .checking w l) :
    Safe sem ok alone (eligible ok)
      (post (fun _ w l => ∃ ts, At none (v.applied a ts) .healthy w l) (ApplyFails ok a v))
      (applyTargets a (rendered a v.db).targets) w l := by
  unfold applyTargets
  simp only [Prog.bind_eq]
  refine alone_seq (alone_readFiles _ h) (fun e w l hq hone => ?_) ?_
  · obtain ⟨u, rfl, hat⟩ := hq hone
    exact .inr (.inl ⟨v.cleared, rfl, hat⟩)
  rintro _ w₁ l₁ ⟨rfl, h₁⟩
  have hdb : ((v.cleared.write (rendered a v.db).targets).enable a.newShards).db = v.db := by
    simp [Pool.enable, Pool.cleared, Pool.setFile]
  refine Safe.seq isRely_alone
    (K := fun _ => At none ((v.cleared.write (rendered a v.db).targets).enable a.newShards)
    .healthy)
    (Safe.handle isRely_alone
      (E := Hurt ok true (Pool.Off ((rendered a v.db).targets.map (·.1)) v.cleared))
      (alone_applySteps (v := v.cleared) a hinv h₁) fun e w l hq => ?_) fun _ w₂ l₂ h₂ => ?_
  · by_cases hone : OneFault ok
    · obtain ⟨u, hoff, hat⟩ := hq hone
      refine (alone_rollBack hone a e (v := v.cleared) hinv hoff hat).mono ?_
      rintro (e | x) w l hq
      · exact fun _ => .inl ⟨hwhole, hq⟩
      · exact hq.elim
    · exact Safe.never (fun _ _ _ _ h => absurd h hone) (fun _ _ _ h => absurd h hone)
        (neverReturns_rollBack a _ e) w l
  · refine (alone_commitApplied a (by rw [hdb]; exact hinv) h₂).mono ?_
    rintro (e | x) w l hq
    · intro hone
      obtain ⟨-, u, rfl, hat⟩ := hq hone
      exact .inr (.inl ⟨_, hdb, hat⟩)
    · obtain ⟨ts, hat⟩ := hq
      rw [hdb] at hat
      exact ⟨ts, hat⟩

/-- The arguments of a call. -/
def applyArgs (cfg : Config) (sizing : Sizing) (restartShards newShards : List Int) : ApplyArgs :=
  ⟨cfg, sizing, newShards, sortedSet (restartShards ++ newShards)⟩

theorem alone_apply (cfg : Config) (sizing : Sizing) (restartShards newShards : List Int)
    (hinv : Inv v.db) (h : At none v .checking w l) :
    Safe sem ok alone (eligible ok)
      (post (fun _ w l => Whole (applyArgs cfg sizing restartShards newShards).shards v.db ∧
          ∃ ts, At none (v.applied (applyArgs cfg sizing restartShards newShards) ts) .healthy w l)
        (ApplyFails ok (applyArgs cfg sizing restartShards newShards) v))
          (apply cfg sizing restartShards newShards) w l := by
  have happly : apply cfg sizing restartShards newShards =
      (renderAll (applyArgs cfg sizing restartShards newShards)).bind fun r =>
      (checkCandidates r).bind fun x => if x.1 = true then
        applyTargets (applyArgs cfg sizing restartShards newShards) r.targets
        else (transaction (sql abortStaged)).bind fun _ =>
          .raise (.pool ("Проверка конфигурации relay не прошла: " ++ x.2)) := by
    unfold apply applyArgs
    simp only [Prog.bind_eq, Bool.not_eq_true]
    congr 1
    funext r
    congr 1
    funext x
    cases x.1 <;> rfl
  rw [happly]
  generalize applyArgs cfg sizing restartShards newShards = a
  refine alone_seq (alone_renderAll a h) (fun e w l hq hone => ?_) ?_
  · obtain ⟨p', ⟨-, rfl⟩ | ⟨hz, rfl⟩, hat⟩ := hq hone
    · exact .inr (.inl ⟨v, rfl, hat⟩)
    · exact .inr (.inr ⟨hz, v, rfl, hat⟩)
  rintro _ w₁ l₁ ⟨rfl, hwhole, h₁⟩
  refine alone_seq (alone_checkCandidates _ h₁) (fun e w l hq hone => .inr (.inl (hq hone))) fun x
    w₂ l₂ h₂ => ?_
  obtain ⟨answer, message⟩ := x
  cases answer with
  | false =>
    -- the relay rejects the candidates
    refine Safe.seq isRely_alone (K := fun _ => At none (discarded v.cleared) (.failed true)) ?_
      fun _ w₃ l₃ h₃ => ?_
    · refine (alone_abort (v := v.cleared) hinv h₂).mono ?_
      rintro (e | x) w l hq
      · intro hone
        have := (hq hone).1
        simp [Phase.isFailed] at this
      · exact hq
    · exact Safe.raiseStable (stable_alone _) fun _ => .inl ⟨hwhole, rfl, _, rfl, rfl, h₃⟩
  | true =>
    refine (alone_applyTargets a hinv hwhole h₂).mono ?_
    rintro (e | x) w l hq
    · exact hq
    · exact ⟨hwhole, hq⟩

end Rules

/-! ## The promise -/

/-- Nothing is staged: no pending secret, no inactive shard, no slot of one. -/
structure NothingStaged (db : DB) : Prop where
  pending : ∀ s ∈ db.slots, s.pendingSecret = none
  shards : ∀ sh ∈ db.shards, sh.active = 1
  slots : ∀ s ∈ db.slots, OnActive db s

def NoCandidate (w : World) : Prop :=
  w.files (.candidate .profiles) = none ∧ w.files (.candidate .relayConfig) = none

/-- Either `apply` returns, the staged rows are committed, and the files are exactly what was
rendered; or it raises a `PoolError`, the targets are as before, and nothing is staged. -/
def AllOrNothing (a : ApplyArgs) (w : World) : Except Err Unit → World → Prop
  | .ok _, w' =>
    (∃ ts, w'.db = appliedEvent a ts w.db) ∧
      (∀ x ∈ (rendered a w.db).targets, w'.files x.1 = some x.2) ∧
    (∀ path, path ∉ (rendered a w.db).targets.map (·.1) → path ≠ .candidate .profiles →
      path ≠ .candidate .relayConfig → w'.files path = w.files path) ∧ NoCandidate w'
  | .error e, w' =>
    e.isPoolError = true ∧ (∀ x ∈ (rendered a w.db).targets, w'.files x.1 = w.files x.1) ∧
      NoCandidate w' ∧
    NothingStaged w'.db

/-- Anything may happen, but at most one call fails. -/
def oneFault : Allow Action Choice State := fun c {_} _ s => c.result ≠ .ok → Calm s.2.trace

theorem oneFault_one : OneFault oneFault := fun _ _ _ _ h hc => h hc

theorem nothingStaged_aborted {db : DB} (h : Inv db) : NothingStaged (aborted db) where
  pending _ hs := aborted_pending h hs
  shards _ hsh := ((mem_abortedShards h).1 hsh).2
  slots _ hs := aborted_onActive h hs

theorem targets_paths (a : ApplyArgs) (db : DB) :
    (rendered a db).targets.map (·.1) = .profiles :: .relayConfig ::
      a.shards.map Path.shardEnv := by
  simp [rendered, Rendered.targets, envFile, Function.comp_def]

theorem targets_nodup (cfg : Config) (sizing : Sizing) (restartShards newShards : List Int)
    (db : DB) :
    ((rendered (applyArgs cfg sizing restartShards newShards) db).targets.map (·.1)).Nodup := by
  have hshards : (applyArgs cfg sizing restartShards newShards).shards.Nodup :=
    (Table.orderBy_perm id _).nodup_iff.2 (List.nodup_dedup _)
  rw [targets_paths]
  simp only [List.nodup_cons, List.mem_cons, List.mem_map, not_or, reduceCtorEq, not_false_eq_true,
    true_and, and_false, exists_false]
  exact hshards.map fun _ _ h => Path.shardEnv.inj h

theorem cleared_files {v : Pool} {path : Path} (h1 : path ≠ .candidate .profiles)
    (h2 : path ≠ .candidate .relayConfig) : v.cleared.files path = v.files path := by
  simp [Pool.cleared, Pool.setFile, h1, h2]

theorem target_ne {a : ApplyArgs} {db : DB} {path : Path}
    (h : path ∈ (rendered a db).targets.map (·.1)) (q : Path) : path ≠ .candidate q := by
  rw [targets_paths] at h
  rintro rfl
  simp at h

section Promise
variable {w w' : World} {l : Own} {cfg : Config} {sizing : Sizing}
  {restartShards newShards : List Int}

/-- What has been put into place is what was promised. -/
theorem allOrNothing_applied {ts : Int} {p : Phase}
    (h : At none (w.pool.applied (applyArgs cfg sizing restartShards newShards) ts) p w' l)
    (u : Unit) : AllOrNothing (applyArgs cfg sizing restartShards newShards) w (.ok u) w' := by
  have hpool := Pool.mk.inj h.pool
  have hfiles : w'.files =
      (w.pool.cleared.write
      (rendered (applyArgs cfg sizing restartShards newShards) w.db).targets).files :=
    hpool.2.1
  have hnot : ∀ q, Path.candidate q ∉
      (rendered (applyArgs cfg sizing restartShards newShards) w.db).targets.map (·.1) :=
    fun q hm => target_ne hm q rfl
  refine ⟨⟨ts, hpool.1⟩, fun x hx => ?_, fun path hpath h1 h2 => ?_, ?_, ?_⟩
  · rw [hfiles]
    exact Pool.write_of_mem (targets_nodup cfg sizing restartShards newShards w.db) hx _
  · rw [hfiles, Pool.write_of_notMem hpath, cleared_files h1 h2]
    rfl
  · rw [hfiles, Pool.write_of_notMem (hnot _)]
    simp [Pool.cleared, Pool.setFile]
  · rw [hfiles, Pool.write_of_notMem (hnot _)]
    simp [Pool.cleared, Pool.setFile]

theorem allOrNothing_rolledBack (hinv : Inv w.db) {a : ApplyArgs} {e : Err}
    (he : e.isPoolError = true) (h : Same (discarded w.pool.cleared) w' l) :
    AllOrNothing a w (.error e) w' := by
  obtain ⟨u, hdb, hfiles, hat⟩ := h
  have hpool := Pool.mk.inj hat.pool
  have hfiles : w'.files = w.pool.cleared.files := hpool.2.1.trans hfiles
  have hdb : w'.db = aborted w.db := hpool.1.trans hdb
  refine ⟨he, fun x hx => ?_, ⟨?_, ?_⟩, hdb ▸ nothingStaged_aborted hinv⟩
  · have hm := List.mem_map_of_mem (f := (·.1)) hx
    rw [hfiles, cleared_files (target_ne hm _) (target_ne hm _)]
    rfl
  · rw [hfiles]
    simp [Pool.cleared, Pool.setFile]
  · rw [hfiles]
    simp [Pool.cleared, Pool.setFile]

/-- Staged rows that are still there break it. -/
theorem not_allOrNothing (hstaged : ¬ NothingStaged w.db) (hdb : w'.db = w.db) {a : ApplyArgs}
    {e : Err} :
    ¬ AllOrNothing a w (.error e) w' := fun h => hstaged (hdb ▸ h.2.2.2)

end Promise

/-- With staged rows and at most one failing call, `apply` always comes to an end; it keeps its
promise if and only if every shard of the call has its sixteen rows and the failing call, if there
is one, is the relay's check that answers no, or lies between the first write of a target and the
health check. -/
theorem apply_allOrNothing_iff (cfg : Config) (sizing : Sizing) (restartShards newShards : List Int)
    (w : World) (n : Nat) (hinv : Inv w.db) (hwriter : w.writer = none)
    (hstaged : ¬ NothingStaged w.db) :
    (∃ out s, sem.Runs oneFault (apply cfg sizing restartShards newShards) (w, Own.idle n) out s) ∧
    ∀ (out : Except Err Unit) (w' : World) (l : Own),
      sem.Runs oneFault (apply cfg sizing restartShards newShards) (w, Own.idle n) out (w', l) →
      (AllOrNothing (applyArgs cfg sizing restartShards newShards) w out w' ↔
        Whole (applyArgs cfg sizing restartShards newShards).shards w.db ∧
          phase l.trace ≠ .failed false) := by
  have hat : At none w.pool .checking w (Own.idle n) := ⟨rfl, hwriter, rfl, rfl⟩
  have hsafe : Safe sem oneFault alone (eligible oneFault) _ _ _ _ :=
    alone_apply cfg sizing restartShards newShards hinv hat
  refine ⟨Safe.complete isRely_alone (fun w l _ a hg => ?_) hsafe, fun out w' l hr => ?_⟩
  · obtain ⟨c, r, s', hc, hp⟩ := hg oneFault_one
    exact ⟨r, s'.1, s'.2, c, fun hne => absurd hc hne, hp⟩
  have hend := Safe.runs isRely_alone hsafe hr
  cases out with
  | ok u =>
    obtain ⟨hwhole, ts, hat⟩ := hend
    exact iff_of_true (allOrNothing_applied hat u) ⟨hwhole, by rw [hat.phase]; simp⟩
  | error e =>
    rcases hend oneFault_one with ⟨hwhole, he, hsame⟩ | ⟨u, hdb, hat⟩ | ⟨hnot, u, hdb, hat⟩
    · refine iff_of_true (allOrNothing_rolledBack hinv he hsame) ⟨hwhole, ?_⟩
      obtain ⟨u, -, -, hat⟩ := hsame
      rw [hat.phase]
      simp
    · refine iff_of_false (not_allOrNothing hstaged ((Pool.mk.inj hat.pool).1.trans hdb)) fun h =>
        h.2 hat.phase
    · exact iff_of_false (not_allOrNothing hstaged ((Pool.mk.inj hat.pool).1.trans hdb)) fun h =>
        hnot h.1

/-! ## A shard that is staged -/

instance (es : List Entry) : Decidable (Calm es) := by
  unfold Calm
  infer_instance

def oneFaultAllows (c : Choice) {β : Type} (_ : Action β) (s : State) : Bool :=
  decide (c.result ≠ .ok → Calm s.2.trace)

theorem oneFault_of_play {cs : List Choice} {α : Type} {p p' : P α} {s s' : State}
    (h : sem.play oneFaultAllows cs p s = some (p', s')) : sem.Steps oneFault p s p' s' := by
  refine Sem.Steps.mono (fun c _ a s hallows => ?_) (Sem.Steps.of_play h)
  intro hne
  have : c.result = .ok ∨ Calm s.2.trace := by simpa [oneFaultAllows] using hallows
  exact this.resolve_left hne

/-- The pool's first shard is staged, and writing the first candidate fails. -/
def stageOnce : List Choice :=
  succeed 3 ++ [.inputs ⟨[0], (List.range 16).map sampleToken⟩] ++ succeed 4 ++
    [.fail "disk full" false] ++ succeed 1

/-- `apply` up to its COMMIT. -/
def applyOnce : List Choice :=
  succeed 4 ++ [.answer true ""] ++ succeed 19 ++ [.answer true ""] ++ succeed 2 ++
    [.inputs ⟨[0], []⟩]

/-- The shard staged, then applied with the given end. -/
def stagedThen (cs : List Choice) :
    Option ((Option (Except Err Unit) × Bool × Bool) × Option (Except Err Unit) × Bool × Phase) :=
  (sem.play anything stageOnce samplePool.program (World.initial, Own.idle 0)).bind fun x =>
    (sem.play oneFaultAllows (applyOnce ++ cs) (apply sampleConfig sampleSizing [] [0])
      (x.2.1, Own.idle 0)).map fun y =>
      ((x.1.outcome?, x.2.1.writer.isNone, x.2.1.db.shards.any fun sh => sh.active = 0),
        y.1.outcome?,
        decide (Whole (applyArgs sampleConfig sampleSizing [] [0]).shards x.2.1.db),
        phase y.2.2.trace)

theorem stagedThen_inv {cs : List Choice} {e : Err} {out : Except Err Unit} {whole : Bool}
    {p : Phase} (h : stagedThen cs = some ((some (.error e), true, true), some out, whole, p)) :
    ∃ w : World, Resting w ∧ ¬ NothingStaged w.db ∧ ∃ w' l,
      sem.Runs oneFault (apply sampleConfig sampleSizing [] [0]) (w, Own.idle 0) out (w', l) ∧
      decide (Whole (applyArgs sampleConfig sampleSizing [] [0]).shards w.db) = whole ∧
        phase l.trace = p := by
  obtain ⟨⟨q, w, l⟩, hfirst, h⟩ := Option.bind_eq_some_iff.1 h
  obtain ⟨⟨q', w', l'⟩, hsecond, h⟩ := Option.map_eq_some_iff.1 h
  simp only [Prod.mk.injEq] at h
  obtain ⟨⟨hout, hwriter, hinactive⟩, hout', hwhole, hphase⟩ := h
  have hq := Prog.outcome?_eq_some.1 hout
  have hq' := Prog.outcome?_eq_some.1 hout'
  subst hq hq'
  have hrest := (resting_runs resting_initial (Sem.Steps.of_play hfirst)).1
  refine ⟨w, hrest, fun hn => ?_, w', l', oneFault_of_play hsecond, hwhole, hphase⟩
  obtain ⟨sh, hsh, h0⟩ := List.any_eq_true.1 hinactive
  have h1 := hn.shards sh hsh
  have h0 : sh.active = 0 := by simpa using h0
  omega

theorem applyOnce_plays : stagedThen (succeed 1) =
    some ((some (.error (.system "disk full")), true, true), some (.ok ()), true, .healthy) := by
  decide +kernel

theorem apply_allOrNothing_iff_applyOnce : ∃ w w' : World,
    AllOrNothing (applyArgs sampleConfig sampleSizing [] [0]) w (.ok ()) w' := by
  obtain ⟨w, hrest, hstaged, w', l, hr, hwhole, hphase⟩ := stagedThen_inv applyOnce_plays
  have h := apply_allOrNothing_iff sampleConfig sampleSizing [] [0] w 0 hrest.world.1
      hrest.writer hstaged
  exact ⟨w, w', (h.2 _ _ _ hr).2 ⟨of_decide_eq_true hwhole, by simp [hphase]⟩⟩

theorem commitFails_plays : stagedThen [.sqlFail "disk I/O error" true DB.empty, .ok] =
    some ((some (.error (.system "disk full")), true, true),
      some (.error (.sqlite "disk I/O error")), true, .failed false) := by
  decide +kernel

/-- The last COMMIT fails: `apply` raises, and neither the files nor the staged rows are as
promised. -/
theorem apply_commitFails : ∃ w w' : World, ∃ l, Resting w ∧ ¬ NothingStaged w.db ∧
    sem.Runs oneFault (apply sampleConfig sampleSizing [] [0]) (w, Own.idle 0)
      (.error (.sqlite "disk I/O error")) (w', l) ∧
    ¬ AllOrNothing (applyArgs sampleConfig sampleSizing [] [0]) w
      (.error (.sqlite "disk I/O error")) w' := by
  obtain ⟨w, hrest, hstaged, w', l, hr, -⟩ := stagedThen_inv commitFails_plays
  exact ⟨w, w', l, hrest, hstaged, hr, fun h => absurd h.1 (by decide)⟩

end WebProxyPanel
