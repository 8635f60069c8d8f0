import WebProxyPanel.Steps
/-!
# The invariant of all processes together

`Mutex`: one write transaction, one holder of the pool lock, and a committed database and files that
are in order. Each step of a guarded process keeps it, and to the other processes such a step is a
`Rely` step. `reachable_mutex` is the result for every order of steps, with stops anywhere.
-/

namespace WebProxyPanel
open Effects

variable {ι : Type} [DecidableEq ι]

structure Mutex (w : World) (ls : ι → Own) : Prop where
  world : WorldOk w
  tx : ∀ i j, (ls i).inTx = true → (ls j).inTx = true → i = j
  writer : w.writer ≠ none ↔ ∃ i, (ls i).inTx = true
  lock : ∀ i j, (ls i).locked = true → (ls j).locked = true → i = j
  held : ∀ i, (ls i).locked = true → w.poolLock = true

section Mutex
variable {ok : Allow Action Choice State} {m : Mode} {w w' : World} {ls : ι → Own} {i : ι}
  {l' : Own}

/-- A field that the step leaves alone. -/
theorem update_field {γ : Type} (ls : ι → Own) (i : ι) (l' : Own) (f : Own → γ)
    (h : f l' = f (ls i)) (j : ι) : f (Function.update ls i l' j) = f (ls j) := by
  by_cases hj : j = i
  · rw [hj, Function.update_self, h]
  · rw [Function.update_of_ne hj]

/-- A step that takes and gives back nothing. -/
theorem Mutex.same (h : Mutex w ls) (hw : WorldOk w') (htx : l'.inTx = (ls i).inTx)
    (hlk : l'.locked = (ls i).locked) (hwr : w'.writer ≠ none ↔ w.writer ≠ none)
    (hp : w'.poolLock = w.poolLock) : Mutex w' (Function.update ls i l') := by
  have ht := update_field ls i l' Own.inTx htx
  have hl := update_field ls i l' Own.locked hlk
  refine ⟨hw, ?_, ?_, ?_, ?_⟩
  · simpa only [ht] using h.tx
  · simpa only [ht, hwr] using h.writer
  · simpa only [hl] using h.lock
  · simpa only [hl, hp] using h.held

omit [DecidableEq ι] in
theorem Mutex.free (h : Mutex w ls) (hw : w.writer = none) (j : ι) : (ls j).inTx = false := by
  by_contra hne
  exact h.writer.2 ⟨j, eq_true_of_ne_false hne⟩ hw

/-- The own transaction. -/
theorem inTx_of_ownTx {w : World} {l : Own} {tx : Tx} (h : ownTx (w, l) = some tx) :
    l.inTx = true ∧ w.writer = some tx := by
  unfold ownTx at h
  cases hl : l.inTx <;> simp_all

/-- The end of a transaction. -/
theorem Mutex.endTx (h : Mutex w ls) (hi : (ls i).inTx = true) (hw : WorldOk w')
    (htx : l'.inTx = false) (hlk : l'.locked = (ls i).locked) (hwr : w'.writer = none)
    (hp : w'.poolLock = w.poolLock) : Mutex w' (Function.update ls i l') := by
  have hl := update_field ls i l' Own.locked hlk
  have hnone : ∀ j, (Function.update ls i l' j).inTx = false := by
    intro j
    by_cases hj : j = i
    · rw [hj, Function.update_self, htx]
    · rw [Function.update_of_ne hj]
      by_contra hne
      exact hj (h.tx j i (eq_true_of_ne_false hne) hi)
  refine ⟨hw, ?_, ?_, ?_, ?_⟩
  · intro j k hj
    rw [hnone j] at hj
    simp at hj
  · simp [hwr, hnone]
  · simpa only [hl] using h.lock
  · simpa only [hl, hp] using h.held

theorem Mutex.begin_ (h : Mutex w ls) (hw : w.writer = none) {es : List Entry} :
    Mutex w.begin_ (Function.update ls i ({ ls i with inTx := true }.note es)) := by
  have hl := update_field ls i ({ ls i with inTx := true }.note es) Own.locked rfl
  have honly : ∀ j, (Function.update ls i ({ ls i with inTx := true }.note es) j).inTx =
      true → j = i := by
    intro j hj
    by_contra hne
    rw [Function.update_of_ne hne, h.free hw j] at hj
    simp at hj
  refine ⟨h.world, ?_, ?_, ?_, ?_⟩
  · intro j k hj hk
    rw [honly j hj, honly k hk]
  · refine ⟨fun _ => ⟨i, by rw [Function.update_self]; rfl⟩, fun _ => ?_⟩
    simp
  · simpa only [hl] using h.lock
  · simp only [hl]
    exact h.held

theorem Mutex.setLock (h : Mutex w ls) (held : Bool) (hother : ∀ j, j ≠ i → (ls j).locked = false)
    {es : List Entry} :
    Mutex (w.setLock held)
      (Function.update ls i ({ ls i with locked := held, synced := false }.note es)) := by
  have ht := update_field ls i ({ ls i with locked := held, synced := false }.note es) Own.inTx rfl
  have honly : ∀ j, (Function.update ls i ({ ls i with locked := held, synced := false }.note es)
      j).locked = true → j = i := by
    intro j hj
    by_contra hne
    rw [Function.update_of_ne hne, hother j hne] at hj
    simp at hj
  refine ⟨h.world, ?_, ?_, ?_, ?_⟩
  · simpa only [ht] using h.tx
  · simp only [ht]
    exact h.writer
  · intro j k hj hk
    rw [honly j hj, honly k hk]
  · intro j hj
    have := honly j hj
    subst this
    rw [Function.update_self] at hj
    exact hj

/-- The steps of one process, for all processes. -/
theorem Mutex.does (h : Mutex w ls) (hd : Does ok m w (ls i) w' l') :
    Mutex w' (Function.update ls i l') := by
  cases hd with
  | nothing es => exact h.same h.world rfl rfl Iff.rfl rfl
  | begin_ es hw _ => exact h.begin_ hw
  | statements tx tx' es htx _ _ _ =>
    refine h.same h.world rfl rfl ?_ rfl
    simp [(inTx_of_ownTx htx).2]
  | commit tx es htx hc _ =>
    exact h.endTx (inTx_of_ownTx htx).1 ⟨hc.inv, hc.files h.world.2⟩ rfl rfl rfl rfl
  | rollback tx es htx => exact h.endTx (inTx_of_ownTx htx).1 h.world rfl rfl rfl rfl
  | fwCall call fails done es hg _ =>
    refine h.same h.world rfl rfl ?_ rfl
    simp
  | replace ports blocked l₁ es _ _ hl =>
    rcases hl with rfl | rfl
    · exact h.same h.world rfl rfl Iff.rfl rfl
    · exact h.same h.world rfl rfl Iff.rfl rfl
  | file p data es _ hp => exact h.same (FilesOk.setFile h.world hp) rfl rfl Iff.rfl rfl
  | units u es _ => exact h.same h.world rfl rfl Iff.rfl rfl
  | lock es hp _ =>
    refine h.setLock true fun j _ => ?_
    by_contra hne
    rw [h.held j (eq_true_of_ne_false hne)] at hp
    simp at hp
  | unlock es hl _ =>
    refine h.setLock false fun j hj => ?_
    by_contra hne
    exact hj (h.lock j i (eq_true_of_ne_false hne) hl)

/-- To another process, the step is interference that it relies on. -/
theorem Mutex.rely (h : Mutex w ls) (hd : Does ok m w (ls i) w' l') {j : ι} (hj : j ≠ i) :
    Rely (ls j) w w' := by
  have hnot : (ls i).inTx = true → (ls j).inTx = true → False := fun hi hj' => hj (h.tx j i hj' hi)
  have hnlk : (ls i).locked = true → (ls j).locked = true → False :=
    fun hi hj' => hj (h.lock j i hj' hi)
  have hok : WorldOk w' := (h.does hd).world
  refine ⟨fun _ => hok, fun ht => ?_, fun hl => ?_⟩
  · cases hd with
    | begin_ es hw _ => exact absurd ht (by rw [h.free hw j]; simp)
    | statements tx tx' es htx _ _ _ => exact (hnot (inTx_of_ownTx htx).1 ht).elim
    | commit tx es htx _ _ => exact (hnot (inTx_of_ownTx htx).1 ht).elim
    | rollback tx es htx => exact (hnot (inTx_of_ownTx htx).1 ht).elim
    | fwCall call fails done es hg _ => exact (hnot hg.1 ht).elim
    | nothing es => exact ⟨rfl, rfl⟩
    | replace ports blocked l₁ es _ _ _ => exact ⟨rfl, rfl⟩
    | file p data es _ _ => exact ⟨rfl, rfl⟩
    | units u es _ => exact ⟨rfl, rfl⟩
    | lock es _ _ => exact ⟨rfl, rfl⟩
    | unlock es _ _ => exact ⟨rfl, rfl⟩
  · cases hd with
    | commit tx es htx hc _ =>
      refine ⟨rfl, rfl, hc.frame ?_⟩
      by_contra hne
      exact hnlk (eq_true_of_ne_false hne) hl
    | file p data es hi _ => exact (hnlk hi hl).elim
    | units u es hi => exact (hnlk hi hl).elim
    | nothing es => exact ⟨rfl, rfl, .refl _⟩
    | begin_ es _ _ => exact ⟨rfl, rfl, .refl _⟩
    | statements tx tx' es _ _ _ _ => exact ⟨rfl, rfl, .refl _⟩
    | rollback tx es _ => exact ⟨rfl, rfl, .refl _⟩
    | fwCall call fails done es _ _ => exact ⟨rfl, rfl, .refl _⟩
    | replace ports blocked l₁ es _ _ _ => exact ⟨rfl, rfl, .refl _⟩
    | lock es _ _ => exact ⟨rfl, rfl, .refl _⟩
    | unlock es _ _ => exact ⟨rfl, rfl, .refl _⟩

/-- A process that stops gives back its transaction and its lock. -/
theorem Mutex.crash (h : Mutex w ls) (i : ι) :
    Mutex (crash (w, ls i)).1 (Function.update ls i (crash (w, ls i)).2) := by
  have hnone : ∀ (f : Own → Bool), (∀ j k, f (ls j) = true → f (ls k) = true → j = k) →
      f (ls i) = true → ∀ j, j ≠ i → f (ls j) = false := by
    intro f hf hi j hj
    by_contra hne
    exact hj (hf j i (eq_true_of_ne_false hne) hi)
  -- first the transaction
  have htx : Mutex (if (ls i).inTx then w.rollback else w)
      (Function.update ls i { ls i with inTx := false }) := by
    by_cases hi : (ls i).inTx = true
    · rw [if_pos hi]
      exact h.endTx hi h.world rfl rfl rfl rfl
    · have hi' : (ls i).inTx = false := eq_false_of_ne_true hi
      rw [if_neg hi]
      exact h.same h.world hi'.symm rfl Iff.rfl rfl
  generalize hw : (if (ls i).inTx then w.rollback else w) = w₁ at htx
  have hfin : ∀ (w₂ : World), w₂.db = w₁.db → w₂.files = w₁.files → w₂.writer = w₁.writer →
      (w₂.poolLock = w₁.poolLock ∨ (ls i).locked = true) →
      Mutex w₂ (Function.update ls i (Own.idle 0)) := by
    intro w₂ hdb hf hwr hp
    have hlocked : ∀ j, (Function.update ls i (Own.idle 0) j).locked = true →
        j ≠ i ∧ (ls j).locked = true := by
      intro j hj
      by_cases hji : j = i
      · rw [hji, Function.update_self] at hj
        simp [Own.idle] at hj
      · rw [Function.update_of_ne hji] at hj
        exact ⟨hji, hj⟩
    have hin : ∀ j, (Function.update ls i (Own.idle 0) j).inTx =
        (Function.update ls i { ls i with inTx := false } j).inTx := by
      intro j
      by_cases hji : j = i
      · rw [hji, Function.update_self, Function.update_self]
        rfl
      · rw [Function.update_of_ne hji, Function.update_of_ne hji]
    refine ⟨?_, ?_, ?_, ?_, ?_⟩
    · rw [WorldOk, hdb, hf]
      exact htx.world
    · simpa only [hin] using htx.tx
    · simpa only [hin, hwr] using htx.writer
    · exact fun j k hj hk => h.lock j k (hlocked j hj).2 (hlocked k hk).2
    · intro j hj
      obtain ⟨hji, hl⟩ := hlocked j hj
      rcases hp with hp | hp
      · rw [hp, ← hw]
        have := h.held j hl
        split <;> exact this
      · rw [hnone Own.locked h.lock hp j hji] at hl
        simp at hl
  rw [show (WebProxyPanel.crash (w, ls i)).2 = Own.idle 0 from rfl]
  by_cases hl : (ls i).locked = true
  · have : (WebProxyPanel.crash (w, ls i)).1 = w₁.setLock false := by
      simp [WebProxyPanel.crash, hl, hw]
    rw [this]
    exact hfin _ rfl rfl rfl (.inr hl)
  · have : (WebProxyPanel.crash (w, ls i)).1 = w₁ := by simp [WebProxyPanel.crash, hl, hw]
    rw [this]
    exact hfin _ rfl rfl rfl (.inl rfl)

theorem crash_db (w : World) (l : Own) :
    (crash (w, l)).1.db = w.db ∧ (crash (w, l)).1.files = w.files ∧
    (crash (w, l)).1.units = w.units ∧ (crash (w, l)).1.blocked = w.blocked ∧
      (crash (w, l)).1.commits = w.commits := by
  unfold WebProxyPanel.crash
  dsimp only
  split <;> split <;> exact ⟨rfl, rfl, rfl, rfl, rfl⟩

theorem Mutex.crash_rely (h : Mutex w ls) {i j : ι} (hj : j ≠ i) :
    Rely (ls j) w (WebProxyPanel.crash (w, ls i)).1 := by
  obtain ⟨hdb, hf, hu, -⟩ := crash_db w (ls i)
  refine ⟨fun _ => (h.crash i).world, fun ht => ⟨hdb, ?_⟩,
    fun _ => ⟨hf, hu, by rw [hdb]; exact .refl _⟩⟩
  have hi : (ls i).inTx = false := by
    by_contra hne
    exact hj (h.tx j i ht (eq_true_of_ne_false hne))
  unfold WebProxyPanel.crash
  simp only [hi, Bool.false_eq_true, if_false]
  split <;> rfl

end Mutex

/-! ## Every order of steps -/

/-- After installation: no shard, no user, nothing blocked. -/
def World.initial : World where
  db := DB.empty
  writer := none
  poolLock := false
  blocked := ∅
  files _ := none
  units := ∅
  overwritten := false
  commits := [DB.empty]

theorem inv_empty : Inv DB.empty where
  consistent := by decide
  layout := by
    refine ⟨rfl, by decide, ?_, ?_, ?_, rfl, ?_⟩ <;> simp [DB.empty]
  linked := by
    refine ⟨?_, ?_, ?_⟩ <;> simp [DB.empty]
  secrets := by decide
  tokens := by simp [allSecrets, DB.empty]
  pending := by simp [DB.empty]
  inactive := by simp [DB.empty]
  enabledBit := by simp [DB.empty]

theorem worldOk_initial : WorldOk World.initial := by
  refine ⟨inv_empty, fun path => ?_⟩
  cases path with
  | profiles => intro s hs; simp [World.initial, DB.empty] at hs
  | shardEnv k => intro s hs; simp [World.initial, DB.empty] at hs
  | relayConfig => trivial
  | candidate p => trivial

/-- No process has started yet. -/
def Procs.initial : Procs where
  shared := World.initial
  own _ := Own.idle 0
  running _ := none

theorem mutex_initial : Mutex Procs.initial.shared Procs.initial.own where
  world := worldOk_initial
  tx := by simp [Procs.initial, Own.idle]
  writer := by simp [Procs.initial, Own.idle, World.initial]
  lock := by simp [Procs.initial, Own.idle]
  held := by simp [Procs.initial, Own.idle]

section Reachable
variable {ok : Allow Action Choice State} {mayStop : Prop}

/-- More that every step keeps. -/
structure Kept (ok : Allow Action Choice State) (mayStop : Prop) (X : World → (Nat → Own) → Prop) :
    Prop where
  does : ∀ (w : World) (ls : Nat → Own) (i : Nat) (op : Op) (w' : World) (l' : Own),
    Mutex w ls → X w ls → Does ok (op.mode false) w (ls i) w' l' → X w' (Function.update ls i l')
  stop : mayStop → ∀ (w : World) (ls : Nat → Own) (i : Nat), Mutex w ls → X w ls →
    X (crash (w, ls i)).1 (Function.update ls i (crash (w, ls i)).2)

theorem ready_crash {w : World} {l : Own} (h : WorldOk (crash (w, l)).1) :
    Ready ok (crash (w, l)).1 (crash (w, l)).2 :=
  ⟨rfl, rfl, fun _ => rfl, h⟩

theorem composes {X : World → (Nat → Own) → Prop} (hX : Kept ok mayStop X) :
    system.Composes ok mayStop (interferes false) (promises false) (Ready ok) fun w ls =>
      Mutex w ls ∧ X w ls where
  rely := isRely_interferes
  idle _ _ _ ho h := h.interferes ho
  safe op w l h := by
    refine (@safe_program ok false w l h op).mono fun out w₁ l₁ hq => ?_
    cases out with
    | ok a => exact hq
    | error e => exact hq.1
  act w ls i op {β} a r w' l' h hg hn := by
    have hd := does_of_next (m := op.mode false) hg hn
    exact ⟨⟨h.1.does hd, hX.does w ls i op w' l' h.1 h.2 hd⟩, fun j hj => ⟨by simp, h.1.rely hd hj⟩⟩
  stop hm w ls i h :=
    ⟨⟨h.1.crash i, hX.stop hm w ls i h.1 h.2⟩, fun j hj => ⟨by simp, h.1.crash_rely hj⟩,
      ready_crash (h.1.crash i).world⟩

/-- A configuration that processes can reach from the installation. -/
def Reached (ok : Allow Action Choice State) (mayStop : Prop) (c : Procs) : Prop :=
  system.Reachable ok mayStop Procs.initial c

theorem good_of_reached {X : World → (Nat → Own) → Prop} (hX : Kept ok mayStop X)
    (h₀ : X World.initial fun _ => Own.idle 0) {c : Procs} (h : Reached ok mayStop c) :
    system.Good ok (interferes false) (promises false) (Ready ok)
      (fun w ls => Mutex w ls ∧ X w ls) c := by
  refine System.invariant (composes hX) ⟨⟨mutex_initial, h₀⟩, fun i => ?_⟩ h
  exact ⟨rfl, rfl, fun _ => rfl, worldOk_initial⟩

theorem kept_true : Kept ok mayStop fun _ _ => True :=
  ⟨fun _ _ _ _ _ _ _ _ _ => trivial, fun _ _ _ _ _ _ => trivial⟩

theorem reached_mutex {c : Procs} (h : Reached ok mayStop c) : Mutex c.shared c.own :=
  (good_of_reached kept_true trivial h).global.1

theorem reached_inv {c : Procs} (h : Reached ok mayStop c) : Inv c.shared.db :=
  (reached_mutex h).world.1

/-- What a step does to the world, from a reachable configuration. -/
theorem reached_step {c c' : Procs} {i : Nat} (h : Reached ok mayStop c)
    (hs : system.Step ok mayStop i c c') :
    c'.shared = c.shared ∨
      (∃ op p l', c.running i = some (op, p) ∧
        Does ok (op.mode false) c.shared (c.own i) c'.shared l') ∨
      c'.shared = (crash (c.shared, c.own i)).1 := by
  cases hs with
  | start op hn => exact .inl rfl
  | act hr hn =>
    have hg := (good_of_reached kept_true trivial h).guard isRely_interferes hr
    exact .inr (.inl ⟨_, _, _, hr, does_of_next hg hn⟩)
  | finish hr => exact .inl rfl
  | stop hm => exact .inr (.inr rfl)

end Reachable

/-! ## An installation with one shard and one user -/

/-- An operation from its start to its end, with these choices. -/
def turns (i : Nat) (op : Op) (cs : List Choice) : List (Nat × System.Turn Op Choice) :=
  (i, .start op) :: cs.map (fun c => (i, .act c)) ++ [(i, .finish)]

/-- `n` actions that succeed. -/
def succeed (n : Nat) : List Choice := List.replicate n .ok

/-- Distinct values for the first 256 numbers. -/
def sampleToken (n : Nat) : String :=
  String.ofList (List.replicate 30 '0' ++ [Nat.digitChar (n / 16 % 16), Nat.digitChar (n % 16)])

def sampleConfig : Config :=
  ⟨"proxy.example", "/", "", 100, "/site", "/token.key", "/profiles.json"⟩
def sampleSizing : Sizing := ⟨[], [], []⟩
def sampleUser : Users.NewUser := ⟨"user", "panel", none, none, none, none, "never", "", none, none⟩

/-- A user who may have two devices. -/
def pairUser : Users.NewUser := { sampleUser with maxDevicesValue := some 2 }

/-- A forced growth by one shard, without failures. -/
def growOnce (tokens : List String) : List Choice :=
  succeed 3 ++ [.inputs ⟨[0], tokens⟩] ++ succeed 6 ++ [.answer true ""] ++ succeed 19 ++
    [.answer true ""] ++ succeed 2 ++ [.inputs ⟨[0], []⟩] ++ succeed 2

/-- `create_user` without failures. -/
def createOnce : List Choice := [.time 0] ++ succeed 4 ++ [.inputs ⟨[0, 0], []⟩] ++ succeed 2

def installation : List (Nat × System.Turn Op Choice) :=
  turns 0 (.maintain sampleConfig sampleSizing (some 1))
    (growOnce ((List.range 16).map sampleToken)) ++ turns 0 (.createUser sampleUser) createOnce

/-- Everything may fail at any time. -/
def anything (_ : Choice) {β : Type} (_ : Action β) (_ : State) : Bool := true

theorem installation_runs : (system.run anything installation Procs.initial).isSome = true :=
  by decide +kernel

def Procs.installed : Procs :=
  (system.run anything installation Procs.initial).get installation_runs

theorem reached_installed {mayStop : Prop} :
    Reached (fun c {_} a s => anything c a s = true) mayStop Procs.installed :=
  System.reachable_of_run (Option.some_get installation_runs).symm

end WebProxyPanel
