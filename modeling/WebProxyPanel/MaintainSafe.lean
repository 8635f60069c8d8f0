import WebProxyPanel.PoolSafe
import WebProxyPanel.Rows
/-!
# Maintenance is safe

`maintain` keeps the guard at each of its steps: it writes only files that list the links in use,
commits staged rows only after every file it needs is written, and new shards only after their ports
were blocked. The theorems follow the program from the inside out.
-/

namespace WebProxyPanel
open Effects

/-! ## What `maintain` knows of the staged rows -/

/-- What a user operation cannot change of the database. -/
def OfPool (P : DB → Prop) : Prop := ∀ db db', PoolFrame db db' → P db → P db'

theorem OfPool.lasting {P : DB → Prop} (h : OfPool P) : Lasting fun w => P w.db :=
  fun _ _ _ hp hk => h _ _ hp hk

theorem OfPool.and {P P' : DB → Prop} (h : OfPool P) (h' : OfPool P') :
    OfPool fun db => P db ∧ P' db :=
  fun _ _ hf hp => ⟨h _ _ hf hp.1, h' _ _ hf hp.2⟩

/-- The shards of a staged database: those with pending secrets and the inactive ones are applied.
-/
structure Covers (newShards shards : List Int) (db : DB) : Prop where
  shards : ∀ s ∈ db.slots, s.pendingSecret ≠ none ∨ ¬ OnActive db s → s.shardId ∈ shards
  active : newShards = [] → ∀ s ∈ db.slots, OnActive db s

theorem ofPool_covers (newShards shards : List Int) : OfPool (Covers newShards shards) := by
  intro db db' hf h
  constructor
  · intro s' hs' hp
    obtain ⟨s, hs, hprog⟩ := hf.before hs'
    obtain ⟨-, h2, -, -, -, h6⟩ := core_eq_iff.1 hprog.1
    rw [h2]
    refine h.shards s hs ?_
    rw [h6, hf.onActive hprog] at hp
    exact hp
  · intro hn s' hs'
    obtain ⟨s, hs, hprog⟩ := hf.before hs'
    exact (hf.onActive hprog).2 (h.active hn s hs)

theorem Staged.covers {D : String → Prop} {db db' : DB} {restart new : List Int}
    (h : Staged D db restart new db') : Covers new (sortedSet (restart ++ new)) db' := by
  have hinact : ∀ s ∈ db'.slots, ¬ OnActive db' s → s.shardId ∈ new := by
    intro s hs ha
    obtain ⟨sh, hsh, hid, -, hact⟩ := h.inv.shardOf hs
    rw [← hid]
    exact (h.inactive sh hsh).1 fun h1 => ha (hact.2 h1)
  constructor
  · intro s hs hp
    rw [mem_sortedSet, List.mem_append]
    rcases hp with hp | hp
    · exact .inl ((h.restart _).2 ⟨s, hs, h.inv.pending s hs hp, rfl⟩)
    · exact .inr (hinact s hs hp)
  · intro hn s hs
    by_contra ha
    have := hinact s hs ha
    rw [hn] at this
    simp at this

/-- Contents that list every slot. -/
def AllFull (targets : List (Path × Content)) (db : DB) : Prop :=
  ∀ x ∈ targets, PathFull db x.1 (some x.2)

theorem ofPool_allFull (targets : List (Path × Content)) : OfPool (AllFull targets) :=
  fun _ _ hf h x hx => (h x hx).frame hf

/-- Contents that list every link in use. -/
def AllOk (previous : List (Path × Option Content)) (db : DB) : Prop :=
  ∀ x ∈ previous, PathOk db x.1 x.2

theorem ofPool_allOk (previous : List (Path × Option Content)) : OfPool (AllOk previous) :=
  fun _ _ hf h x hx => (h x hx).frame hf

/-- The files written so far list every slot. -/
def OnDisk (targets : List (Path × Content)) (w : World) : Prop :=
  ∀ x ∈ targets, PathFull w.db x.1 (w.files x.1)

theorem lasting_onDisk (targets : List (Path × Content)) : Lasting (OnDisk targets) :=
  fun w w' hf hp h x hx => by rw [hf]; exact (h x hx).frame hp

/-- Which files there are among the targets. -/
structure Complete (shards : List Int) (targets : List (Path × Content)) : Prop where
  profiles : ∃ c, (Path.profiles, c) ∈ targets
  envs : ∀ k ∈ shards, ∃ c, (Path.shardEnv k, c) ∈ targets

theorem OnDisk.written {newShards shards : List Int} {targets : List (Path × Content)} {w : World}
    (h : OnDisk targets w) (hc : Covers newShards shards w.db) (ht : Complete shards targets) :
    Written w.db w.files := by
  constructor
  · obtain ⟨c, hx⟩ := ht.profiles
    exact h _ hx
  · intro s hs hp
    obtain ⟨c, hx⟩ := ht.envs _ (hc.shards s hs hp)
    exact h _ hx

/-! ## The program -/

section Program
variable {ok : Allow Action Choice State} {m : Mode} {S : Bool → Prop} {w : World} {l : Own}

/-- The env files of some shards have been rendered. -/
def EnvsOk (P : DB → Prop) (shards : List Int) (envs : List (Path × Content)) (w : World) : Prop :=
  (∀ k ∈ shards, ∃ c, (Path.shardEnv k, c) ∈ envs) ∧ P w.db ∧ AllFull envs w.db

theorem lasting_envsOk {P : DB → Prop} (hP : OfPool P) (shards : List Int)
    (envs : List (Path × Content)) : Lasting (EnvsOk P shards envs) :=
  fun _ _ _ hp hk => ⟨hk.1, hP _ _ hp hk.2.1, ofPool_allFull _ _ _ hp hk.2.2⟩

theorem safe_renderEnvs {P : DB → Prop} (hP : OfPool P) (cfg : Config) :
    ∀ (shards : List Int) {w : World} {l : Own},
    Held ok S (fun w => P w.db) w l →
      Safe sem ok (others m) (guard m) (HeldPost ok S (EnvsOk P shards) fun _ => True)
        (renderEnvs cfg shards) w l
  | [], w, l, h => by
    refine fun w₁ h₁ => (h.others hP.lasting h₁).imp fun hp => ⟨by simp, hp, ?_⟩
    intro x hx
    simp at hx
  | shard :: shards, w, l, h => by
    have hQ : StableQ (others m) (HeldPost ok S (EnvsOk P (shard :: shards)) fun _ => True) :=
      stable_heldPost (lasting_envsOk hP (shard :: shards)) Lasting.trivial
    -- the text, if there is one, lists every slot of the shard
    let P₁ : Except Err String → DB → Prop := fun b db =>
      P db ∧ ∀ text, b = .ok text → PathFull db (.shardEnv shard) (some (.text text))
    have hP₁ : ∀ b, OfPool (P₁ b) := fun b _ _ hf hp =>
        ⟨hP _ _ hf hp.1, fun text ht => (hp.2 text ht).frame hf⟩
    unfold renderEnvs
    simp only [Prog.bind_eq, Prog.pure_eq]
    refine safe_seq (E := fun _ => True) (K := fun b w => P₁ b w.db) (fun _ _ _ h => h) ?_ ?_
    · exact safe_query hP.lasting (fun b => (hP₁ b).lasting) Lasting.trivial
        (fun w _ hp => ⟨⟨hp, fun text ht => pathFull_renderShardEnv ht⟩, trivial⟩) h
    rintro (e | text) w₁ l₁ h₁
    · exact Safe.raiseStable hQ (h₁.imp fun _ => trivial)
    simp only [ofExcept, Prog.ret_bind]
    have hP₂ : OfPool fun db => P db ∧ PathFull db (.shardEnv shard) (some (.text text)) :=
      hP.and fun _ _ hf h => h.frame hf
    refine safe_seq (E := fun _ => True) (fun _ _ _ h => h)
      (safe_renderEnvs hP₂ cfg shards (h₁.imp fun hp => ⟨hp.1, hp.2 text rfl⟩)) fun rest w₂ l₂ h₂ =>
      ?_
    refine Safe.retStable hQ (h₂.imp ?_)
    rintro ⟨hc, ⟨hp, hf⟩, hrest⟩
    refine ⟨fun k hk => ?_, hp, fun x hx => ?_⟩
    · rcases List.mem_cons.1 hk with rfl | hk
      · exact ⟨_, List.mem_cons_self ..⟩
      · obtain ⟨c, hx⟩ := hc k hk
        exact ⟨c, List.mem_cons_of_mem _ hx⟩
    · rcases List.mem_cons.1 hx with rfl | hx
      · exact hf
      · exact hrest x hx

/-- What is known of the rendered files. -/
def RenderedOk (P : DB → Prop) (a : ApplyArgs) (r : Rendered) (db : DB) : Prop :=
  Complete a.shards r.targets ∧ P db ∧ AllFull r.targets db

theorem ofPool_renderedOk {P : DB → Prop} (hP : OfPool P) (a : ApplyArgs) (r : Rendered) :
    OfPool (RenderedOk P a r) :=
  fun _ _ hf h => ⟨h.1, hP _ _ hf h.2.1, ofPool_allFull _ _ _ hf h.2.2⟩

theorem safe_renderAll {P : DB → Prop} (hP : OfPool P) (a : ApplyArgs)
    (h : Held ok S (fun w => P w.db) w l) :
    Safe sem ok (others m) (guard m)
      (HeldPost ok S (fun r w => RenderedOk P a r w.db) fun _ => True)
      (renderAll a) w l := by
  have hQ : StableQ (others m) (HeldPost ok S (fun r w => RenderedOk P a r w.db) fun _ => True) :=
    stable_heldPost (fun r => (ofPool_renderedOk hP a r).lasting) Lasting.trivial
  let P₁ : List Profile → DB → Prop := fun ps db => P db ∧
      PathFull db .profiles (some (.profiles ps))
  have hP₁ : ∀ ps, OfPool (P₁ ps) := fun ps => hP.and fun _ _ hf h => h.frame hf
  unfold renderAll
  simp only [Prog.bind_eq, Prog.pure_eq]
  refine safe_seq (E := fun _ => True) (K := fun ps w => P₁ ps w.db) (fun _ _ _ h => h) ?_ fun ps
    w₁ l₁ h₁ => ?_
  · exact safe_query hP.lasting (fun ps => (hP₁ ps).lasting) Lasting.trivial
      (fun w _ hp => ⟨⟨hp, pathFull_renderProfiles _ _⟩, trivial⟩) h
  refine safe_seq (E := fun _ => True) (fun _ _ _ h => h)
    (safe_renderEnvs (hP₁ ps) a.cfg a.shards h₁) fun envs w₂ l₂ h₂ => ?_
  refine Safe.retStable hQ (h₂.imp ?_)
  rintro ⟨hc, ⟨hp, hf⟩, henvs⟩
  refine ⟨⟨⟨_, List.mem_cons_self ..⟩, fun k hk => ?_⟩, hp, fun x hx => ?_⟩
  · obtain ⟨c, hx⟩ := hc k hk
    exact ⟨c, List.mem_cons_of_mem _ (List.mem_cons_of_mem _ hx)⟩
  · rcases List.mem_cons.1 hx with rfl | hx
    · exact hf
    · rcases List.mem_cons.1 hx with rfl | hx
      · trivial
      · exact henvs x hx

/-- A candidate is nobody's link. -/
theorem safe_setCandidate {P : DB → Prop} (hP : OfPool P) {p : Path} {data : Option Content}
    {a : Action Unit} {call : Call} (hcall : a.call? = some call)
    (ha : ∀ c w l, respond c a (w, l) = plain c (World.setFile (.candidate p) data) (w, l))
    (hg : ∀ w l, l.locked = true → guard m w l a) (h : Held ok S (fun w => P w.db) w l) :
    Safe sem ok (others m) (guard m) (HeldPost ok S (fun _ w => P w.db) fun w => P w.db)
      (.call a) w l :=
  safe_setFile hP.lasting hP.lasting hP.lasting hcall ha (fun w l hl _ => hg w l hl)
    (fun _ _ _ => trivial) (fun _ hp => ⟨hp, hp, hp⟩) h

theorem safe_checkCandidates {P : DB → Prop} (hP : OfPool P) (r : Rendered)
    (h : Held ok S (fun w => P w.db) w l) :
    Safe sem ok (others m) (guard m) (HeldPost ok S (fun _ w => P w.db) fun w => P w.db)
      (checkCandidates r) w l := by
  have hR := isRely_others m
  have hQ : ∀ {γ : Type},
      StableQ (others m) (HeldPost (α := γ) ok S (fun _ w => P w.db) fun w => P w.db) :=
    stable_heldPost (fun _ => hP.lasting) hP.lasting
  unfold checkCandidates
  simp only [Prog.bind_eq]
  refine safe_seq (E := fun w => P w.db) (fun _ _ _ h => h)
    (safe_setCandidate hP rfl (fun c _ _ => rfl) (fun _ _ hl => ⟨hl, trivial⟩) h) fun _ w₁ l₁ h₁ =>
    ?_
  refine safe_seq (E := fun w => P w.db) (fun _ _ _ h => h)
    (safe_setCandidate hP rfl (fun c _ _ => rfl) (fun _ _ hl => ⟨hl, trivial⟩) h₁) fun _ w₂ l₂ h₂ =>
    ?_
  -- both candidates go, whatever the check said
  have hgo : ∀ {w l}, Held ok S (fun w => P w.db) w l →
      Safe sem ok (others m) (guard m) (HeldPost ok S (fun _ w => P w.db) fun w => P w.db)
        ((Prog.call (.removeFile (.candidate .profiles))).bind fun _ =>
          .call (.removeFile (.candidate .relayConfig))) w l := by
    intro w l h
    exact safe_seq (E := fun w => P w.db) (fun _ _ _ h => h)
      (safe_setCandidate hP rfl (fun c _ _ => rfl) (fun _ _ hl => ⟨hl, trivial⟩) h)
      fun _ w₁ l₁ h₁ =>
        safe_setCandidate hP rfl (fun c _ _ => rfl) (fun _ _ hl => ⟨hl, trivial⟩) h₁
  refine Safe.tryFinally hR hQ (K := fun _ => Held ok S fun w => P w.db)
    (E := fun _ => Held ok S fun w => P w.db)
    (fun _ _ _ _ ho h => h.others hP.lasting ho)
    (fun _ _ _ _ ho h => h.others hP.lasting ho) ?_ ?_ ?_
  · refine Safe.callStable hQ fun w₃ h₃ => ⟨trivial, fun r w₄ l₄ hn => ?_⟩
    have h₃ := h₂.others hP.lasting h₃
    obtain ⟨rfl, ⟨msg, rfl, rfl⟩ | ⟨msg, -, rfl, rfl⟩ | ⟨msg, done, -, rfl, rfl⟩⟩ :=
      next_relayCheck hn
    · exact h₃.note _
    · exact h₃.note _
    · exact h₃.note _
  · intro a w₃ l₃ h₃
    refine (hgo h₃).mono fun out w₄ l₄ hq => ?_
    cases out <;> exact hq
  · intro e w₃ l₃ h₃
    refine (hgo h₃).mono fun out w₄ l₄ hq => ?_
    cases out <;> exact hq

theorem safe_readFiles {P : DB → Prop} (hP : OfPool P) :
    ∀ (paths : List Path) {w : World} {l : Own},
    Held ok S (fun w => P w.db) w l →
      Safe sem ok (others m) (guard m)
        (HeldPost ok S (fun previous w => P w.db ∧ AllOk previous w.db) fun _ => True)
        (readFiles paths) w l
  | [], w, l, h => by
    refine fun w₁ h₁ => (h.others hP.lasting h₁).imp fun hp => ⟨hp, fun x hx => ?_⟩
    simp at hx
  | path :: paths, w, l, h => by
    have hR := isRely_others m
    have hQ : StableQ (others m)
        (HeldPost ok S (fun previous w => P w.db ∧ AllOk previous w.db) fun _ => True) :=
      stable_heldPost (fun previous => (hP.and (ofPool_allOk previous)).lasting) Lasting.trivial
    unfold readFiles
    simp only [Prog.bind_eq, Prog.pure_eq]
    refine Safe.callThen hR hQ fun w₁ h₁ => ⟨trivial, fun r w₂ l₂ hn => ?_⟩
    have h₁ := h.others hP.lasting h₁
    rcases next_read (f := .system) (b := w₁.files path) rfl (fun _ => rfl) hn with
      ⟨rfl, rfl, rfl⟩ | ⟨msg, done, -, rfl, rfl, rfl⟩
    swap
    · exact (h₁.note _).imp fun _ => trivial
    -- a file as it stands lists every link in use
    have hP₁ : OfPool fun db => P db ∧ PathOk db path (w₂.files path) :=
      hP.and fun _ _ hf h => h.frame hf
    simp only [thenSafe]
    refine safe_seq (E := fun _ => True) (fun _ _ _ h => h)
      (safe_readFiles hP₁ paths ((h₁.note _).imp fun hp => ⟨hp, h₁.world.2 path⟩)) fun rest
      w₃ l₃ h₃ => ?_
    refine Safe.retStable hQ (h₃.imp ?_)
    rintro ⟨⟨hp, hf⟩, hrest⟩
    refine ⟨hp, fun x hx => ?_⟩
    rcases List.mem_cons.1 hx with rfl | hx
    · exact hf
    · exact hrest x hx

/-- The targets, written one after another. -/
theorem safe_writeTargets {P : DB → Prop} (hP : OfPool P) {previous : List (Path × Option Content)}
    {targets : List (Path × Content)} (hfull : ∀ db, P db → AllFull targets db ∧ AllOk previous db)
    (h : Held ok S (fun w => P w.db) w l) :
    Safe sem ok (others m) (guard m)
      (HeldPost ok S (fun _ w => P w.db ∧ OnDisk targets w) fun w => AllOk previous w.db)
      (targets.forM fun x => .call (.writeFile x.1 x.2)) w l := by
  have hI : ∀ pre, Lasting fun w => P w.db ∧ OnDisk pre w :=
    fun pre => hP.lasting.and (lasting_onDisk pre)
  refine Safe.forM (isRely_others m) (I := fun pre => Held ok S fun w => P w.db ∧ OnDisk pre w)
    (fun pre _ _ _ ho h => h.others (hI pre) ho) ?_
    (h.imp fun hp => ⟨hp, fun x hx => by simp at hx⟩)
  intro pre x suf hxs w l h
  have hx : x ∈ targets := by simp [hxs]
  refine safe_setFile (hI pre) (hI (pre ++ [x])) (ofPool_allOk previous).lasting rfl
    (fun _ _ _ => rfl)
    (fun _ _ hl hp => ⟨hl, hp⟩) (fun w hw hp => ((hfull _ hp.1).1 x hx).ok hw.1) ?_ h
  rintro w ⟨hp, hd⟩
  refine ⟨⟨hp, fun y hy => ?_⟩, (hfull _ hp).2, (hfull _ hp).2⟩
  have hx' := (hfull _ hp).1 x hx
  by_cases hyx : y.1 = x.1
  · rw [hyx]
    simpa using hx'
  · rcases List.mem_append.1 hy with hy | hy
    · have := hd y hy
      simpa [hyx] using this
    · rw [List.mem_singleton.1 hy] at hyx
      exact absurd rfl hyx

/-- After the steps of `apply`: new shards are behind a table that was replaced since. -/
def Synced (newShards : List Int) (b : Bool) : Prop := newShards ≠ [] → b = true

/-- What `apply` knows when it starts to write. -/
def Knows (a : ApplyArgs) (targets : List (Path × Content))
    (previous : List (Path × Option Content)) (db : DB) : Prop :=
  Covers a.newShards a.shards db ∧ AllFull targets db ∧ AllOk previous db

theorem ofPool_knows (a : ApplyArgs) (targets : List (Path × Content))
    (previous : List (Path × Option Content)) : OfPool (Knows a targets previous) :=
  (ofPool_covers _ _).and ((ofPool_allFull _).and (ofPool_allOk _))

/-- How the body of the `try` ends. -/
def StepsPost (ok : Allow Action Choice State) (a : ApplyArgs) (targets : List (Path × Content))
    (previous : List (Path × Option Content)) : Except Err Unit → World → Own → Prop :=
  post (fun _ => Held ok (Synced a.newShards) fun w => Knows a targets previous w.db ∧
    OnDisk targets w) fun _ => Held ok (fun _ => True) fun w => AllOk previous w.db

theorem safe_applySteps (a : ApplyArgs) (targets : List (Path × Content))
    (previous : List (Path × Option Content))
    (h : Held ok (fun _ => True) (fun w => Knows a targets previous w.db) w l) :
    Safe sem ok (others m) (guard m) (StepsPost ok a targets previous)
      (applySteps a targets) w l := by
  have hR := isRely_others m
  have hP := ofPool_knows a targets previous
  have hK : Lasting fun w => Knows a targets previous w.db ∧ OnDisk targets w :=
    hP.lasting.and (lasting_onDisk targets)
  have hE : Lasting fun w => AllOk previous w.db := (ofPool_allOk previous).lasting
  have hKE : ∀ w, Knows a targets previous w.db ∧ OnDisk targets w → AllOk previous w.db :=
    fun w h => h.1.2.2
  -- from a step that keeps `synced` to the weaker postcondition
  have hweak : ∀ {S : Bool → Prop} {w l}, Held ok S (fun w => AllOk previous w.db) w l →
      Held ok (fun _ => True) (fun w => AllOk previous w.db) w l :=
        fun h => { h with synced := trivial }
  unfold applySteps
  simp only [Prog.bind_eq]
  refine safe_seq (fun _ _ _ h => h) (safe_writeTargets hP (fun _ h => h.2) h) fun _ w₁ l₁ h₁ => ?_
  refine Safe.seq hR (K := fun _ => Held ok (Synced a.newShards) fun w =>
    Knows a targets previous w.db ∧ OnDisk targets w) ?_ fun _ w₂ l₂ h₂ => ?_
  · unfold Prog.runIf
    split
    · refine Safe.seq hR (safe_poolSync hK hE hKE h₁) fun _ w₂ l₂ h₂ => ?_
      refine (safe_loop (E := fun w => AllOk previous w.db) hK (fun shard _ w l h => ?_) h₂).mono ?_
      · exact safe_keep hK hE hKE (fun w => w.setUnits (insert shard w.units)) rfl
          (fun _ _ _ => rfl) (fun _ => ⟨rfl, rfl⟩) (fun _ _ hl => hl) h
      · rintro (e | x) w₃ l₃ hq
        · exact hweak hq
        · exact { hq with synced := fun _ => hq.synced }
    · rename_i hn
      have h₁' : Held ok (Synced a.newShards) (fun w => Knows a targets previous w.db ∧
          OnDisk targets w) w₁ l₁ :=
        { h₁ with synced := fun h => absurd h hn }
      exact fun w₂ ho => h₁'.others hK ho
  -- restarts and the health check
  · refine safe_seq (fun _ _ _ h => hweak h)
      (safe_loop (E := fun w => AllOk previous w.db) hK (fun shard _ w l h => ?_) h₂) fun _
      w₃ l₃ h₃ => ?_
    · exact safe_keep hK hE hKE id rfl (fun _ _ _ => rfl) (fun _ => ⟨rfl, rfl⟩)
        (fun _ _ _ => trivial) h
    refine safe_seq (fun _ _ _ h => hweak h)
      (safe_keep hK hE hKE id rfl (fun _ _ _ => rfl) (fun _ => ⟨rfl, rfl⟩)
      (fun _ _ _ => trivial) h₃) fun _ w₄ l₄ h₄ => ?_
    have hQ : StableQ (others m) (StepsPost ok a targets previous) :=
      StableQ.post (fun _ _ _ _ ho h => h.others hK ho) fun _ _ _ _ ho h => h.others hE ho
    refine Safe.callThen hR hQ fun w₅ h₅ => ⟨trivial, fun r w₆ l₆ hn => ?_⟩
    have h₅ := h₄.others hK h₅
    obtain ⟨rfl, ⟨rfl, rfl⟩ | ⟨msg, -, rfl, rfl⟩ | ⟨msg, done, -, rfl, rfl⟩⟩ := next_waitHealthy hn
    · exact fun w₇ ho => (h₅.note _).others hK ho
    · exact fun w₇ ho => (hweak ((h₅.note _).imp (hKE _))).others hE ho
    · exact hweak ((h₅.note _).imp (hKE _))

/-- `restore` writes back files that list the links in use, so nothing is lost wherever it stops. -/
theorem safe_restore (previous : List (Path × Option Content))
    (h : Held ok S (fun w => AllOk previous w.db) w l) :
    Safe sem ok (others m) (guard m) (HeldPost ok S (fun _ w => AllOk previous w.db) fun w =>
      AllOk previous w.db)
      (restore previous) w l := by
  have hK : Lasting fun w => AllOk previous w.db := (ofPool_allOk previous).lasting
  refine safe_loop hK (fun x hx w l h => ?_) h
  have hpath : ∀ w : World, WorldOk w → AllOk previous w.db → PathOk w.db x.1 x.2 :=
    fun w _ h => h x hx
  cases hd : x.2 with
  | none =>
    rw [hd] at hpath
    exact safe_setFile hK hK hK rfl (fun _ _ _ => rfl) (fun _ _ hl hp => ⟨hl, hp⟩) hpath
      (fun _ h => ⟨h, h, h⟩) h
  | some data =>
    rw [hd] at hpath
    exact safe_setFile hK hK hK rfl (fun _ _ _ => rfl) (fun _ _ hl hp => ⟨hl, hp⟩) hpath
      (fun _ h => ⟨h, h, h⟩) h

/-- The transaction that drops what was staged. -/
theorem safe_abort {K : World → Prop} (hK : Lasting K) (h : Held ok S K w l) :
    Safe sem ok (others m) (guard m) (HeldPost ok S (fun _ _ => True) fun _ => True)
      (transaction (sql abortStaged)) w l := by
  refine safe_poolTransaction (Y := fun _ _ db db' => db' = aborted db ∧ Inv db) hK
    (fun _ => Lasting.trivial) Lasting.trivial
    (fun w D _ hw _ => abortStaged_wp hw.1 ⟨rfl, hw.1⟩) ?_ (fun _ _ => trivial) h
  rintro _ w l tx hl - hw - hi hf ⟨hcopy, hinv⟩
  refine ⟨.stage hl (.inr ?_) hf hi hinv ?_, trivial⟩
  · rw [hcopy]
    exact fun s hs => aborted_onActive hinv hs
  · rw [hcopy]
    have hs := stageStep_aborted hinv
    exact
      { hs with
        origin := fun s' hs' => (hs.origin s' hs').imp_right fun h => h.2.2.elim
        pending := fun s' hs' v hv => (hs.pending s' hs' v hv).elim }

theorem safe_rollBack (a : ApplyArgs) (previous : List (Path × Option Content)) (error : Err)
    (h : Held ok (fun _ => True) (fun w => AllOk previous w.db) w l) :
    Safe sem ok (others m) (guard m) (HeldPost ok (fun _ => True) (fun _ _ => False) fun _ => True)
      (rollBack a previous error) w l := by
  have hR := isRely_others m
  have hT := Lasting.trivial
  have hK : Lasting fun w => AllOk previous w.db := (ofPool_allOk previous).lasting
  have hQ : StableQ (others m)
      (HeldPost (α := Unit) ok (fun _ => True) (fun _ _ => False) fun _ => True) :=
    stable_heldPost (fun _ _ _ _ _ h => h) hT
  -- processes and units
  have hkeep : ∀ {a : Action Unit} {call : Call} (effect : World → World) {w : World} {l : Own},
      a.call? = some call → (∀ c w l, respond c a (w, l) = plain c effect (w, l)) →
      (∀ w, (effect w).db = w.db ∧ (effect w).files = w.files) →
      (∀ w l, l.locked = true → guard m w l a) →
      Held ok (fun _ => True) (fun _ => True) w l →
      Safe sem ok (others m) (guard m) (HeldPost ok (fun _ => True) (fun _ _ => True) fun _ => True)
      (.call a) w l :=
    fun effect _ _ hcall ha he hg h => safe_keep hT hT (fun _ h => h) effect hcall ha he hg h
  unfold rollBack
  simp only [Prog.bind_eq]
  refine safe_seq (E := fun _ => True) (fun _ _ _ h => h)
    (safe_bestEffort hK (safe_restore previous h)) fun _ w₁ l₁ h₁ => ?_
  refine safe_seq (E := fun _ => True) (fun _ _ _ h => h)
    (safe_loop hT (fun shard _ w l h => safe_bestEffort hT ?_) h₁.any) fun _ w₂ l₂ h₂ => ?_
  · refine safe_seq (E := fun _ => True) (fun _ _ _ h => h)
      (hkeep id rfl (fun _ _ _ => rfl) (fun _ => ⟨rfl, rfl⟩) (fun _ _ _ => trivial) h) fun _
        w' l' h' => ?_
    exact hkeep (fun w => w.setUnits (w.units.erase shard)) rfl (fun _ _ _ => rfl)
      (fun _ => ⟨rfl, rfl⟩) (fun _ _ hl => hl) h'
  refine safe_seq (E := fun _ => True) (fun _ _ _ h => h) (safe_abort hT h₂) fun _ w₃ l₃ h₃ => ?_
  refine safe_seq (E := fun _ => True) (fun _ _ _ h => h) (safe_bestEffort hT ?_) fun _ w₄ l₄ h₄ =>
    ?_
  · refine safe_seq (E := fun _ => True) (fun _ _ _ h => h)
      (safe_loop hT (fun shard _ w l h => ?_) h₃) fun _ w' l' h' => ?_
    · exact hkeep id rfl (fun _ _ _ => rfl) (fun _ => ⟨rfl, rfl⟩) (fun _ _ _ => trivial) h
    · exact hkeep id rfl (fun _ _ _ => rfl) (fun _ => ⟨rfl, rfl⟩) (fun _ _ _ => trivial) h'
  refine safe_seq (E := fun _ => True) (fun _ _ _ h => h) (K := fun _ _ => True) ?_ fun _
    w₅ l₅ h₅ => ?_
  · unfold Prog.runIf
    split
    · refine safe_bestEffort hT ((safe_poolSync hT hT (fun _ h => h) h₄).mono ?_)
      rintro (e | x) w' l' hq
      · exact hq
      · exact hq.any
    · exact fun w' ho => h₄.others hT ho
  · split
    · exact Safe.raiseStable hQ h₅
    · exact Safe.raiseStable hQ h₅

theorem safe_commitApplied (a : ApplyArgs) (targets : List (Path × Content)) {P : DB → Prop}
    (hP : OfPool P) (hc : ∀ db, P db → Covers a.newShards a.shards db)
    (ht : Complete a.shards targets)
    (h : Held ok (Synced a.newShards) (fun w => P w.db ∧ OnDisk targets w) w l) :
    Safe sem ok (others m) (guard m)
      (HeldPost ok (Synced a.newShards) (fun _ _ => True) fun _ => True)
      (commitApplied a) w l := by
  refine safe_poolTransaction
    (Y := fun _ _ db db' => ∃ ev : List Event, db' = { committed db with events := ev } ∧ Inv db')
    (hP.lasting.and (lasting_onDisk targets)) (fun _ => Lasting.trivial) Lasting.trivial ?_ ?_
    (fun _ _ => trivial) h
  · rintro w D - hw -
    refine Sql.wp.bind (commitStaged_wp hw.1 (Sql.wp.bind (Sql.wp.now fun ts => ?_)))
    have hinv := Users.inv_addEvent (inv_committed hw.1) ts "pool_applied" none
      ("shards=" ++ joinOr a.shards ++ " new=" ++ joinOr a.newShards)
    exact Sql.wp.execute hinv.consistent ⟨_, rfl, hinv⟩
  · rintro _ w l tx hl hs hw ⟨hp, hd⟩ hi hf hy
    refine ⟨.committed hl hf hi hy ?_ hw.1 (hd.written (hc _ hp) ht), trivial⟩
    by_cases hn : a.newShards = []
    · exact .inr ((hc _ hp).active hn)
    · exact .inl (hs hn)

/-- How `apply` ends. -/
def ApplyPost (ok : Allow Action Choice State) : Except Err Unit → World → Own → Prop :=
  HeldPost ok (fun _ => True) (fun _ _ => True) fun _ => True

theorem stable_applyPost : StableQ (others m) (ApplyPost ok) :=
  stable_heldPost (fun _ => .trivial) .trivial

theorem safe_applyTargets (a : ApplyArgs) (targets : List (Path × Content))
    (ht : Complete a.shards targets)
    (h : Held ok (fun _ => True) (fun w => Covers a.newShards a.shards w.db ∧ AllFull targets w.db)
      w l) :
    Safe sem ok (others m) (guard m) (ApplyPost ok) (applyTargets a targets) w l := by
  have hR := isRely_others m
  unfold applyTargets
  simp only [Prog.bind_eq]
  refine safe_seq (E := fun _ => True) (fun _ _ _ h => h)
    (safe_readFiles ((ofPool_covers _ _).and (ofPool_allFull _)) _ h) fun previous w₁ l₁ h₁ => ?_
  have hknows := h₁.imp (L := fun w => Knows a targets previous w.db) fun h => ⟨h.1.1, h.1.2, h.2⟩
  refine Safe.seq hR (K := fun _ => Held ok (Synced a.newShards) fun w =>
    Knows a targets previous w.db ∧ OnDisk targets w) ?_ fun _ w₂ l₂ h₂ => ?_
  · refine Safe.handle hR (E := fun _ => Held ok (fun _ => True) fun w => AllOk previous w.db)
      ((safe_applySteps a targets previous hknows).mono ?_) fun e w₂ l₂ h₂ => ?_
    · rintro (e | x) w₂ l₂ hq
      · exact hq
      · exact hq
    · refine (safe_rollBack a previous e h₂).mono ?_
      rintro (e | x) w₃ l₃ hq
      · exact hq
      · exact hq.know.elim
  · refine (safe_commitApplied a targets (ofPool_knows a targets previous) (fun _ h => h.1)
      ht h₂).mono ?_
    rintro (e | x) w₃ l₃ hq
    · exact hq.any
    · exact hq.any

theorem safe_apply (cfg : Config) (sizing : Sizing) (restartShards newShards : List Int)
    (h : Held ok (fun _ => True)
      (fun w => Covers newShards (sortedSet (restartShards ++ newShards)) w.db) w l) :
    Safe sem ok (others m) (guard m) (ApplyPost ok)
      (apply cfg sizing restartShards newShards) w l := by
  unfold apply
  simp only [Prog.bind_eq]
  have hP := ofPool_covers newShards (sortedSet (restartShards ++ newShards))
  refine safe_seq (E := fun _ => True) (fun _ _ _ h => h) (safe_renderAll hP _ h) fun r w₁ l₁ h₁ =>
    ?_
  have ht := h₁.know.1
  refine safe_seq (fun _ _ _ h => h.any) (safe_checkCandidates (ofPool_renderedOk hP _ r) r h₁) ?_
  rintro ⟨passed, message⟩ w₂ l₂ h₂
  simp only
  split
  · refine safe_seq (E := fun _ => True) (fun _ _ _ h => h) (safe_abort Lasting.trivial h₂.any)
      fun _ w₃ l₃ h₃ => ?_
    exact Safe.raiseStable stable_applyPost h₃
  · exact safe_applyTargets _ _ ht (h₂.imp fun h => h.2)

/-- Maintenance keeps the guard at each of its steps and gives the lock back. -/
theorem safe_maintain (cfg : Config) (sizing : Sizing) (growShards : Option Int)
    (h : Ready ok w l) :
    Safe sem ok (others m) (guard m) (post (fun _ => Ready ok) fun _ => Ready ok)
      (maintain cfg sizing growShards) w l := by
  have hR := isRely_others m
  have hQ : ∀ {γ : Type},
      StableQ (others m) (post (fun _ : γ => Ready ok) fun (_ : Err) => Ready ok) :=
    StableQ.post (fun _ _ _ _ ho h => h.others ho) fun _ _ _ _ ho h => h.others ho
  unfold maintain applyLock
  simp only [Prog.bind_eq]
  refine Safe.callThen hR hQ fun w₁ h₁ => ⟨⟨h.locked, h.inTx⟩, fun r w₂ l₂ hn => ?_⟩
  have h₁ := h.others h₁
  rcases next_lock hn with ⟨rfl, -, rfl, rfl⟩ | ⟨msg, done, -, rfl, rfl, rfl⟩
  swap
  · exact ⟨h₁.inTx, h₁.locked, h₁.clean, h₁.world⟩
  simp only [thenSafe]
  have hheld : Held ok (· = false) (fun _ => True) (w₁.setLock true)
      ({ l with locked := true, synced := false }.note [⟨.lock, .ok⟩]) :=
    ⟨h₁.inTx, rfl, h₁.clean, h₁.world, rfl, trivial⟩
  -- whatever happens while the lock is held, it is given back
  have hunlock : ∀ {w l}, Held ok (fun _ => True) (fun _ => True) w l →
      Safe sem ok (others m) (guard m) (post (fun _ : Unit => Ready ok) fun _ => Ready ok)
      (.call .unlock) w l := by
    intro w l h
    refine Safe.callStable hQ fun w₁ h₁ => ⟨⟨h.locked, h.inTx⟩, fun r w₂ l₂ hn => ?_⟩
    have h₁ := h.others Lasting.trivial h₁
    obtain ⟨rfl, rfl, rfl⟩ := next_unlock hn
    exact ⟨h₁.inTx, rfl, h₁.clean, h₁.world⟩
  refine Safe.tryFinally hR hQ (K := fun _ => Held ok (fun _ => True) fun _ => True)
    (E := fun _ => Held ok (fun _ => True) fun _ => True)
    (fun _ _ _ _ ho h => h.others Lasting.trivial ho)
    (fun _ _ _ _ ho h => h.others Lasting.trivial ho) ?_ ?_ ?_
  · -- the body
    have hend : ∀ {γ : Type},
        StableQ (others m) (HeldPost (α := γ) ok (fun _ => True) (fun _ _ => True) fun _ => True) :=
      stable_heldPost (fun _ => .trivial) .trivial
    refine safe_seq (fun _ _ _ h => h.any) (safe_poolTransaction
      (L := fun x w => Covers x.2 (sortedSet (x.1 ++ x.2)) w.db) (E := fun _ => True)
      (Y := fun D x db db' => Staged D db x.1 x.2 db' ∧ Inv db) Lasting.trivial
      (fun x => (ofPool_covers _ _).lasting)
      Lasting.trivial ?_ ?_ (fun _ _ => trivial) hheld) ?_
    · exact fun w D hD hw _ => stageRows_wp hw.1 hD growShards fun restart new db' hs => ⟨hs, hw.1⟩
    · rintro ⟨restart, new⟩ w l tx hl hs hw - hi hf ⟨hy, hinv⟩
      exact ⟨.stage hl (.inl hs) hf hi hinv hy.toStageStep, hy.covers⟩
    rintro ⟨restart, new⟩ w₃ l₃ h₃
    simp only
    split
    · exact Safe.retStable hend h₃.any
    · have h₃' : Held ok (fun _ => True) (fun w => Covers new (sortedSet (restart ++ new)) w.db) w₃
          l₃ :=
        { h₃ with synced := trivial }
      refine safe_seq (E := fun _ => True) (fun _ _ _ h => h)
        (safe_query (ofPool_covers _ _).lasting
        (L := fun _ w => Covers new (sortedSet (restart ++ new)) w.db)
        (fun _ => (ofPool_covers _ _).lasting)
        Lasting.trivial (fun _ _ h => ⟨h, trivial⟩) h₃') fun rotated w₄ l₄ h₄ => ?_
      exact safe_seq (E := fun _ => True) (fun _ _ _ h => h) (safe_apply cfg sizing restart new h₄)
        fun _ w₅ l₅ h₅ =>
        Safe.retStable hend h₅
  · intro a w₃ l₃ h₃
    refine (hunlock h₃).mono fun out w₄ l₄ hq => ?_
    cases out <;> exact hq
  · intro e w₃ l₃ h₃
    refine (hunlock h₃).mono fun out w₄ l₄ hq => ?_
    cases out <;> exact hq

end Program

end WebProxyPanel
