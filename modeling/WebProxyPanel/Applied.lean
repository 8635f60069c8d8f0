import WebProxyPanel.Alone
/-!
# One `apply`, followed to its end

`Pool.write`, `Pool.cleared` and `rendered` say what the steps of `apply` put where; the theorems
follow the program from the inside out, as `safe_*` of the maintenance did, but for one process,
exactly, and through the handler after the one call that fails.
-/

namespace WebProxyPanel
open Effects

/-! ## Files -/

namespace Pool

def setFile (path : Path) (data : Option Content) (v : Pool) : Pool :=
  { v with files := fun p => if p = path then data else v.files p }

/-- Files written one after the other. -/
def write (xs : List (Path × Content)) (v : Pool) : Pool :=
  xs.foldl (fun v x => v.setFile x.1 (some x.2)) v

/-- Neither candidate is there. -/
def cleared (v : Pool) : Pool :=
  (v.setFile (.candidate .profiles) none).setFile (.candidate .relayConfig) none

def enable (ks : List Int) (v : Pool) : Pool := { v with units := v.units ∪ ks.toFinset }

@[simp] theorem write_nil (v : Pool) : v.write [] = v := rfl

@[simp] theorem write_cons (x : Path × Content) (xs : List (Path × Content)) (v : Pool) :
    v.write (x :: xs) = (v.setFile x.1 (some x.2)).write xs := rfl

theorem write_append (xs : List (Path × Content)) (x : Path × Content) (v : Pool) :
    v.write (xs ++ [x]) = (v.write xs).setFile x.1 (some x.2) := by
  simp [write]

@[simp] theorem write_db (xs : List (Path × Content)) (v : Pool) : (v.write xs).db = v.db := by
  induction xs generalizing v with
  | nil => rfl
  | cons x xs ih => exact ih _

@[simp] theorem write_units (xs : List (Path × Content)) (v : Pool) :
    (v.write xs).units = v.units := by
  induction xs generalizing v with
  | nil => rfl
  | cons x xs ih => exact ih _

/-- A path that is not written keeps its content. -/
theorem write_of_notMem {xs : List (Path × Content)} {path : Path} (h : path ∉ xs.map (·.1))
    (v : Pool) : (v.write xs).files path = v.files path := by
  induction xs generalizing v with
  | nil => rfl
  | cons x xs ih =>
    rw [List.map_cons, List.mem_cons, not_or] at h
    rw [write_cons, ih h.2]
    simp [setFile, h.1]

/-- Of different paths, each holds what was written to it. -/
theorem write_of_mem {xs : List (Path × Content)} (hnd : (xs.map (·.1)).Nodup) {x : Path × Content}
    (h : x ∈ xs) (v : Pool) : (v.write xs).files x.1 = some x.2 := by
  induction xs generalizing v with
  | nil => simp at h
  | cons y xs ih =>
    rw [List.map_cons, List.nodup_cons] at hnd
    rw [write_cons]
    rcases List.mem_cons.1 h with rfl | h
    · rw [write_of_notMem hnd.1]
      simp [setFile]
    · exact ih hnd.2 h _

/-- Same database, and the same files but for some paths. -/
def Off (paths : List Path) (v u : Pool) : Prop :=
  u.db = v.db ∧ ∀ p, p ∉ paths → u.files p = v.files p

theorem Off.refl (paths : List Path) (v : Pool) : Off paths v v := ⟨rfl, fun _ _ => rfl⟩

theorem off_write {xs : List (Path × Content)} {paths : List Path} (h : ∀ x ∈ xs, x.1 ∈ paths)
    (v : Pool) : Off paths v (v.write xs) := by
  refine ⟨write_db xs v, fun p hp => write_of_notMem (fun hm => ?_) v⟩
  obtain ⟨x, hx, rfl⟩ := List.mem_map.1 hm
  exact hp (h x hx)

end Pool

/-! ## What is rendered -/

/-- Every shard has its sixteen rows. -/
def Whole (shards : List Int) (db : DB) : Prop := ∀ k ∈ shards, (shardRows k db).length = shardSize

instance (shards : List Int) (db : DB) : Decidable (Whole shards db) := by
  unfold Whole
  infer_instance

/-- One env file. -/
def envFile (cfg : Config) (db : DB) (shard : Int) : Path × Content :=
  (.shardEnv shard, .text (shardEnv cfg shard (shardRows shard db)).text)

/-- `renderAll` of a database. -/
def rendered (a : ApplyArgs) (db : DB) : Rendered where
  profiles := renderProfiles a.sizing.profileLimits db
  relayConfig := renderRelayConfig a.cfg a.sizing (renderProfiles a.sizing.profileLimits db).length
  envs := a.shards.map (envFile a.cfg db)

section Rules
variable {ok : Allow Action Choice State} {v : Pool} {p : Phase} {w : World} {l : Own}

theorem alone_renderEnvs (cfg : Config) :
    ∀ (shards : List Int) {w : World} {l : Own}, At none v p w l →
    Safe sem ok alone (eligible ok)
      (post (fun envs w l => envs = shards.map (envFile cfg v.db) ∧ Whole shards v.db ∧
        At none v p w l)
      (TxFails ok v p fun _ => ¬ Whole shards v.db)) (renderEnvs cfg shards) w l
  | [], w, l, h => Safe.retStable (stable_alone _) ⟨rfl, by simp [Whole], h⟩
  | shard :: shards, w, l, h => by
    have hdb : w.db = v.db := congrArg Pool.db h.pool
    have hseen : w.seen l.inTx = v.db := by
      rw [h.inTx, ← hdb]
      rfl
    refine alone_seq (alone_look (b := renderShardEnv cfg shard v.db) (f := .sqlite) rfl rfl
      (fun c => ?_) h) (fun _ _ _ => Broke.txFails) ?_
    · rw [← hseen]
      rfl
    rintro _ w₁ l₁ ⟨rfl, h₁⟩
    by_cases hrows : (shardRows shard v.db).length = shardSize
    · have hr : renderShardEnv cfg shard v.db =
          .ok (shardEnv cfg shard (shardRows shard v.db)).text := by
        simp [renderShardEnv, hrows]
      rw [hr]
      simp only [ofExcept, Prog.bind_eq, Prog.ret_bind]
      refine alone_seq (alone_renderEnvs cfg shards h₁)
        (fun _ _ _ => TxFails.mono fun _ hz hw => hz ?_) ?_
      · exact fun k hk => hw k (List.mem_cons_of_mem _ hk)
      · rintro _ w₂ l₂ ⟨rfl, hwhole, h₂⟩
        refine Safe.retStable (stable_alone _) ⟨rfl, ?_, h₂⟩
        simpa [Whole, hrows] using hwhole
    · have hr : renderShardEnv cfg shard v.db =
          .error (.pool ("Шард " ++ toString shard ++ " неполный.")) := by
        simp [renderShardEnv, hrows]
      rw [hr]
      refine Safe.raiseStable (stable_alone _) fun _ =>
        ⟨p, .inr ⟨fun hw => hrows (hw shard List.mem_cons_self), rfl⟩, h₁⟩

theorem alone_renderAll (a : ApplyArgs) (h : At none v p w l) :
    Safe sem ok alone (eligible ok)
      (post (fun r w l => r = rendered a v.db ∧ Whole a.shards v.db ∧ At none v p w l)
      (TxFails ok v p fun _ => ¬ Whole a.shards v.db)) (renderAll a) w l := by
  have hseen : w.seen l.inTx = v.db := by
    rw [h.inTx, ← h.pool]
    rfl
  unfold renderAll
  simp only [Prog.bind_eq]
  refine alone_seq (alone_look (b := renderProfiles a.sizing.profileLimits v.db) (f := .sqlite) rfl
    rfl (fun c => ?_) h) (fun _ _ _ => Broke.txFails) ?_
  · rw [← hseen]
    rfl
  rintro _ w₁ l₁ ⟨rfl, h₁⟩
  refine alone_seq (alone_renderEnvs a.cfg a.shards h₁) (fun _ _ _ => id) ?_
  rintro _ w₂ l₂ ⟨rfl, hwhole, h₂⟩
  exact Safe.retStable (stable_alone _) ⟨rfl, hwhole, h₂⟩

/-! ## The candidates -/

theorem alone_writeFile (path : Path) (data : Content) (h : At none v p w l) :
    Safe sem ok alone (eligible ok)
      (post (fun _ => At none (v.setFile path (some data)) (p.next ⟨.writeFile path data, .ok⟩))
      (Fails ok p (p.next ⟨.writeFile path data, .raised⟩) fun u => u = v ∨
        u = v.setFile path (some data)))
      (.call (.writeFile path data)) w l :=
  alone_plain (World.setFile path (some data)) rfl (fun _ => rfl) rfl
    (fun hw => by rw [← hw]; rfl) h

theorem alone_removeFile (path : Path) (h : At none v p w l) :
    Safe sem ok alone (eligible ok) (post (fun _ => At none (v.setFile path none) p)
      (Fails ok p p.fails fun u => u = v ∨ u = v.setFile path none))
        (.call (.removeFile path)) w l := by
  have hv : w.pool = v → (World.setFile path none w).pool = v.setFile path none := by
    rintro rfl
    rfl
  have : Safe sem ok alone (eligible ok) _ (.call (.removeFile path)) w l :=
    alone_plain (World.setFile path none) rfl (fun _ => rfl) rfl hv h
  rwa [Phase.next_ok rfl, Phase.next_raised rfl] at this

/-- The relay's check: it answers yes, or no, or raises. -/
theorem alone_relayCheck (q q' : Path) (h : At none v .checking w l) :
    Safe sem ok alone (eligible ok)
      (post (fun x => At none v (if x.1 then .checking else .failed true))
      (Broke ok none v .checking (.failed false))) (.call (.relayCheck q q')) w l := by
  refine Safe.callStable (stable_alone _) ?_
  rintro _ rfl
  refine ⟨fun _ => can_of (.answer true "") rfl rfl, fun r w₂ l₂ hn => ?_⟩
  obtain ⟨rfl, ⟨msg, rfl, rfl⟩ | ⟨msg, -, rfl, rfl⟩ | ⟨msg, done, hok, rfl, rfl⟩⟩ :=
    next_relayCheck hn
  · show At none v .checking _ _
    exact h.next rfl
  · show At none v (.failed true) _ _
    exact h.next rfl
  · exact fun hone => ⟨rfl, h.next rfl⟩

/-- Where more calls may fail, nothing is said. -/
theorem alone_unless {α : Type} (hone : ¬ OneFault ok) {Q : Except Err α → World → Own → Prop}
    (hQ : ∀ out w l, Q out w l) (q : P α) (w : World) (l : Own) :
    Safe sem ok alone (eligible ok) Q q w l :=
  Safe.any (fun _ _ _ _ h => absurd h hone) hQ q w l

/-- Both candidates are gone again, unless writing one of them has failed. -/
theorem alone_checkCandidates (r : Rendered) (h : At none v .checking w l) :
    Safe sem ok alone (eligible ok)
      (post (fun x => At none v.cleared (if x.1 then .checking else .failed true))
      (Hurt ok false fun u => u.db = v.db)) (checkCandidates r) w l := by
  unfold checkCandidates
  simp only [Prog.bind_eq]
  refine alone_seq (alone_writeFile _ _ h) (fun _ _ _ => Fails.hurt ?_) fun _ w₁ l₁ h₁ => ?_
  · rintro u (rfl | rfl) <;> rfl
  refine alone_seq (alone_writeFile _ _ h₁) (fun _ _ _ => Fails.hurt ?_) fun _ w₂ l₂ h₂ => ?_
  · rintro u (rfl | rfl) <;> rfl
  generalize hv₂ : (v.setFile (.candidate .profiles) _).setFile (.candidate .relayConfig) _ = v₂
    at h₂
  have hcleared : v₂.cleared = v.cleared := by
    subst hv₂
    simp only [Pool.cleared, Pool.setFile, Pool.mk.injEq, true_and, and_true]
    funext path
    by_cases h1 : path = .candidate .relayConfig <;>
      by_cases h2 : path = .candidate .profiles <;> simp [h1, h2]
  have hdb : v₂.db = v.db := by rw [← hv₂]; rfl
  -- the check, and the removal of both on either way out
  refine Safe.tryFinally isRely_alone
    (K := fun x => At none v₂ (if x.1 then .checking else .failed true))
    (E := fun _ w l => OneFault ok → At none v₂ (.failed false) w l) (stable_alone _)
    (by rintro x w l _ rfl h; exact h) (by rintro e w l _ rfl h; exact h)
    ((alone_relayCheck _ _ h₂).mono ?_) ?_ ?_
  · rintro (e | x) w l hq
    · exact fun hone => (hq hone).2
    · exact hq
  · intro x w l hx
    refine alone_seq (alone_removeFile _ hx) (fun _ _ _ hf hone => ?_) fun _ w₃ l₃ h₃ =>
      (alone_removeFile _ h₃).mono ?_
    · obtain ⟨hcalm, u, hu, ha⟩ := hf hone
      cases hx1 : x.1 with
      | false => simp [hx1, Phase.isFailed] at hcalm
      | true =>
        rw [hx1] at ha
        refine ⟨u, ?_, ha⟩
        rcases hu with rfl | rfl
        · exact hdb
        · exact hdb
    · rintro (e | a) w l hq
      · intro hone
        obtain ⟨hcalm, u, hu, ha⟩ := hq hone
        cases hx1 : x.1 with
        | false => simp [hx1, Phase.isFailed] at hcalm
        | true =>
          rw [hx1] at ha
          refine ⟨u, ?_, ha⟩
          rcases hu with rfl | rfl
          · exact hdb
          · exact hdb
      · rw [← hcleared]
        exact hq
  · intro e w l he
    by_cases hone : OneFault ok
    · refine alone_seq (alone_removeFile _ (he hone)) (fun _ _ _ => Fails.elim hone) fun _ w₃ l₃
        h₃ => (alone_removeFile _ h₃).mono ?_
      rintro (e | a) w l hq
      · exact Fails.elim (e := e) hone hq
      · exact fun _ => ⟨(v₂.setFile _ none).setFile _ none, hdb, hq⟩
    · refine alone_unless hone ?_ _ _ _
      rintro (e | a) w l
      · exact fun h => absurd h hone
      · exact fun h => absurd h hone

/-! ## The steps of the `try` -/

/-- Targets written one after the other; the first one is the profiles. -/
theorem alone_writeTargets {data : Content} {xs : List (Path × Content)}
    (h : At none v .checking w l) :
    Safe sem ok alone (eligible ok)
      (post (fun _ => At none (v.write ((.profiles, data) :: xs)) .writing)
      (Hurt ok true (Pool.Off (((.profiles, data) :: xs).map (·.1)) v)))
      (((.profiles, data) :: xs).forM fun x => .call (.writeFile x.1 x.2)) w l := by
  generalize htargets : ((Path.profiles, data) :: xs).map (·.1) = paths
  have hpath : ∀ x ∈ (Path.profiles, data) :: xs, x.1 ∈ paths :=
    fun x hx => htargets ▸ List.mem_map_of_mem hx
  show Safe _ _ _ _ _ ((Prog.call (Action.writeFile .profiles data)).bind fun _ =>
    xs.forM fun x => (.call (.writeFile x.1 x.2) : P Unit)) w l
  refine alone_seq (alone_writeFile .profiles data h) (fun _ _ _ => Fails.hurt ?_) fun _ w₁ l₁ h₁ =>
    ?_
  · rintro u (rfl | rfl)
    · exact Pool.Off.refl _ _
    · show Pool.Off paths v (v.write [(.profiles, data)])
      exact Pool.off_write (by simpa using hpath _ List.mem_cons_self) v
  refine (Safe.forM isRely_alone
    (I := fun pre => At none (v.write ((.profiles, data) :: pre)) .writing)
    (E := Hurt ok true (Pool.Off paths v)) (by rintro pre w l _ rfl h; exact h) ?_ h₁)
  intro pre x suf hsplit w₂ l₂ h₂
  have hx : ∀ y ∈ pre ++ [x], y.1 ∈ paths := by
    intro y hy
    refine hpath y (List.mem_cons_of_mem _ ?_)
    rw [hsplit]
    rcases List.mem_append.1 hy with hy | hy
    · exact List.mem_append_left _ hy
    · exact List.mem_append_right _ (List.mem_singleton.1 hy ▸ List.mem_cons_self)
  have hpre : Pool.Off paths v (v.write ((.profiles, data) :: pre)) :=
    Pool.off_write (List.forall_mem_cons.2 ⟨hpath _ List.mem_cons_self, fun y hy =>
      hx y (List.mem_append_left _ hy)⟩) v
  have hall : Pool.Off paths v (v.write ((.profiles, data) :: (pre ++ [x]))) :=
    Pool.off_write (List.forall_mem_cons.2 ⟨hpath _ List.mem_cons_self, hx⟩) v
  have hnext : (v.write ((.profiles, data) :: pre)).setFile x.1 (some x.2) =
      v.write ((.profiles, data) :: (pre ++ [x])) := by
    rw [← List.cons_append, Pool.write_append]
  refine (alone_writeFile x.1 x.2 h₂).mono ?_
  rintro (e | a) w l hq
  · refine Fails.hurt (p := .writing) (e := e) (fun u hu => ?_) hq
    rcases hu with rfl | rfl
    · exact hpre
    · exact hnext ▸ hall
  · rw [hnext] at hq
    exact hq

/-- A loop of calls that change no file. -/
theorem alone_units {f : Int → Action Unit} {g : Int → Finset Int → Finset Int}
    (hf : ∀ k {v : Pool} {w l}, At none v .writing w l →
      Safe sem ok alone (eligible ok)
        (post (fun _ => At none { v with units := g k v.units } .writing)
          (Hurt ok true fun u => u.db = v.db ∧ u.files = v.files)) (.call (f k)) w l) :
    ∀ (ks : List Int) {v : Pool} {w : World} {l : Own}, At none v .writing w l →
      Safe sem ok alone (eligible ok)
      (post (fun _ => At none { v with units := ks.foldl (fun units k => g k units) v.units }
        .writing)
        (Hurt ok true fun u => u.db = v.db ∧ u.files = v.files)) (ks.forM fun k => .call (f k)) w l
  | [], v, w, l, h => Safe.retStable (stable_alone _) h
  | k :: ks, v, w, l, h => by
    show Safe _ _ _ _ _ ((Prog.call (f k)).bind fun _ => ks.forM fun k => (.call (f k) : P Unit)) w
        l
    exact alone_seq (hf k h) (fun _ _ _ => id) fun _ w₁ l₁ h₁ => alone_units hf ks h₁

theorem alone_enableShard (k : Int) (h : At none v .writing w l) :
    Safe sem ok alone (eligible ok)
      (post (fun _ => At none { v with units := insert k v.units } .writing)
      (Hurt ok true fun u => u.db = v.db ∧ u.files = v.files)) (.call (.enableShard k)) w l := by
  have hv : w.pool = v → (w.setUnits (insert k w.units)).pool =
      { v with units := insert k v.units } := by
    rintro rfl
    rfl
  refine (alone_plain (fun w => w.setUnits (insert k w.units)) rfl (fun _ => rfl) rfl hv h).mono ?_
  rintro (e | a) w l hq
  · refine Fails.hurt (p := .writing) (e := e) (fun u hu => ?_) hq
    rcases hu with rfl | rfl
    · exact ⟨rfl, rfl⟩
    · exact ⟨rfl, rfl⟩
  · exact hq

/-- A call that changes nothing here. -/
theorem alone_restart {a : Action Unit} {call : Call} (hcall : a.call? = some call)
    (hc : call.neutral = true) (ha : ∀ c s, respond c a s = plain c id s) (h : At none v p w l) :
    Safe sem ok alone (eligible ok) (post (fun _ => At none v p) (Fails ok p p.fails (· = v)))
      (.call a) w l := by
  have : Safe sem ok alone (eligible ok) _ (.call a) w l :=
    alone_plain id hcall (fun c => ha c _) rfl (fun hw : w.pool = v => hw) h
  rw [Phase.next_ok hc, Phase.next_raised hc] at this
  refine this.mono ?_
  rintro (e | a) w l hq
  · exact Fails.mono (e := e) (fun u hu => hu.elim id id) hq
  · exact hq

/-- The new shards' table and units. -/
theorem alone_enableNew (hinv : Inv v.db) (new : List Int) (h : At none v .writing w l) :
    Safe sem ok alone (eligible ok) (post (fun _ => At none (v.enable new) .writing)
      (Hurt ok true fun u => u.db = v.db ∧ u.files = v.files))
      (Prog.runIf (new ≠ []) (poolSync.bind fun _ => new.forM fun k => .call (.enableShard k))) w
        l := by
  have hunits : { v with units := new.foldl (fun units k => insert k units) v.units } =
      v.enable new := by
    simp only [Pool.enable, Pool.mk.injEq, true_and]
    generalize v.units = units
    induction new generalizing units with
    | nil => simp
    | cons k ks ih =>
      rw [List.foldl_cons, ih]
      ext x
      simp only [Finset.mem_union, Finset.mem_insert, List.mem_toFinset, List.mem_cons]
      tauto
  by_cases hnew : new = []
  · subst hnew
    have : v.enable [] = v := hunits ▸ rfl
    rw [this]
    exact Safe.retStable (stable_alone _) h
  · rw [Prog.runIf, if_pos hnew, ← hunits]
    refine alone_seq (alone_poolSync hinv h) (fun _ _ _ => Fails.hurt (p := .writing) ?_)
      fun _ w₁ l₁ h₁ =>
      alone_units (g := fun k units => insert k units)
        (fun k _ _ _ h => alone_enableShard k h) new h₁
    rintro u rfl
    exact ⟨rfl, rfl⟩

/-- The health check: it answers yes, or no, or raises. -/
theorem alone_waitHealthy (ks : List Int) (h : At none v .writing w l) :
    Safe sem ok alone (eligible ok)
      (post (fun x => At none v (if x then .healthy else .failed true))
      (Hurt ok true (· = v))) (.call (.waitHealthy ks)) w l := by
  refine Safe.callStable (stable_alone _) ?_
  rintro _ rfl
  refine ⟨fun _ => can_of (.answer true "") rfl rfl, fun r w₂ l₂ hn => ?_⟩
  obtain ⟨rfl, ⟨rfl, rfl⟩ | ⟨msg, -, rfl, rfl⟩ | ⟨msg, done, hok, rfl, rfl⟩⟩ := next_waitHealthy hn
  · show At none v .healthy _ _
    exact h.next rfl
  · show At none v (.failed true) _ _
    exact h.next rfl
  · exact fun _ => ⟨v, rfl, h.next rfl⟩

/-- The whole `try`. -/
theorem alone_applySteps (a : ApplyArgs) {data : Content} {xs : List (Path × Content)}
    (hinv : Inv v.db) (h : At none v .checking w l) :
    Safe sem ok alone (eligible ok)
      (post (fun _ => At none ((v.write ((.profiles, data) :: xs)).enable a.newShards) .healthy)
        (Hurt ok true (Pool.Off (((.profiles, data) :: xs).map (·.1)) v)))
          (applySteps a ((.profiles, data) :: xs)) w l := by
  generalize htargets : (Path.profiles, data) :: xs = targets
  have hoff : ∀ {u : Pool}, u.db = (v.write targets).db ∧ u.files = (v.write targets).files →
      Pool.Off (targets.map (·.1)) v u := by
    rintro u ⟨hdb, hfiles⟩
    have hw : Pool.Off (targets.map (·.1)) v (v.write targets) :=
      Pool.off_write (fun x hx => List.mem_map_of_mem hx) v
    exact ⟨hdb.trans hw.1, fun path hpath => hfiles ▸ hw.2 path hpath⟩
  unfold applySteps
  simp only [Prog.bind_eq]
  refine alone_seq (htargets ▸ alone_writeTargets h) (fun _ _ _ hq => hq) fun _ w₁ l₁ h₁ => ?_
  refine alone_seq (alone_enableNew (by rw [Pool.write_db]; exact hinv) a.newShards h₁)
    (fun _ _ _ => Hurt.mono fun _ => hoff) fun _ w₂ l₂ h₂ => ?_
  have hsame : Pool.Off (targets.map (·.1)) v ((v.write targets).enable a.newShards) :=
    hoff ⟨rfl, rfl⟩
  refine alone_seq (Safe.forM isRely_alone
    (I := fun _ => At none ((v.write targets).enable a.newShards) .writing)
    (E := Hurt ok true (Pool.Off (targets.map (·.1)) v)) (by rintro pre w l _ rfl h; exact h)
    (fun _ k _ _ w l h => (alone_restart rfl rfl (fun _ _ => rfl) h).mono ?_) h₂) (fun _ _ _ => id)
    fun _ w₃ l₃ h₃ => ?_
  · rintro (e | x) w l hq
    · exact Fails.hurt (p := .writing) (e := e)
        (fun u (hu : u = (v.write targets).enable a.newShards) => hu ▸ hsame) hq
    · exact hq
  refine alone_seq (alone_restart rfl rfl (fun _ _ => rfl) h₃)
    (fun _ _ _ => Fails.hurt (p := .writing) fun u
    (hu : u = (v.write targets).enable a.newShards) => hu ▸ hsame) fun _ w₄ l₄ h₄ => ?_
  refine alone_seq (alone_waitHealthy a.shards h₄)
    (fun _ _ _ => Hurt.mono fun u (hu : u = (v.write targets).enable a.newShards) => hu ▸ hsame)
    fun healthy w₅ l₅ h₅ => ?_
  cases healthy with
  | true => exact Safe.retStable (stable_alone _) h₅
  | false => exact Safe.raiseStable (stable_alone _) fun _ => ⟨_, hsame, h₅⟩

/-- The old content of every target. -/
theorem alone_readFiles : ∀ (paths : List Path) {w : World} {l : Own}, At none v .checking w l →
    Safe sem ok alone (eligible ok)
      (post (fun x w l => x = paths.map (fun path => (path, v.files path)) ∧
        At none v .checking w l)
      (Hurt ok false (· = v))) (readFiles paths) w l
  | [], w, l, h => Safe.retStable (stable_alone _) ⟨rfl, h⟩
  | path :: paths, w, l, h => by
    have hfile : w.files path = v.files path := by rw [← h.pool]; rfl
    refine alone_seq (alone_look (b := w.files path) (f := .system) rfl rfl (fun _ => rfl) h)
      (fun _ _ _ hq hone => ?_) ?_
    · exact ⟨v, rfl, (hq hone).2⟩
    rintro _ w₁ l₁ ⟨rfl, h₁⟩
    refine alone_seq (alone_readFiles paths h₁) (fun _ _ _ => id) ?_
    rintro _ w₂ l₂ ⟨rfl, h₂⟩
    exact Safe.retStable (stable_alone _) ⟨by rw [hfile]; rfl, h₂⟩

end Rules

end WebProxyPanel
