import WebProxyPanel.Rules
import WebProxyPanel.Maintain
/-!
# Rules for the holder of the pool lock

* `Held` — between two of its steps, with what it knows.
* `safe_keep`, `safe_setFile`, `safe_query` — its actions on files, units and the database.
* `safe_poolTransaction`, `safe_poolSync` — its transactions, which make no firewall calls.
-/

namespace WebProxyPanel
open Effects

/-! ## What the holder of the lock knows -/

/-- Knowledge that the others cannot take away: of files, and of what a user operation leaves alone.
-/
def Lasting (K : World → Prop) : Prop :=
  ∀ w w', w'.files = w.files → PoolFrame w.db w'.db → K w → K w'

theorem Lasting.trivial : Lasting fun _ => True := fun _ _ _ _ _ => True.intro

theorem Lasting.and {K L : World → Prop} (h : Lasting K) (h' : Lasting L) :
    Lasting fun w => K w ∧ L w :=
  fun w w' hf hp hk => ⟨h w w' hf hp hk.1, h' w w' hf hp hk.2⟩

theorem Lasting.all {ι : Type} {xs : List ι} {K : ι → World → Prop} (h : ∀ x, Lasting (K x)) :
    Lasting fun w => ∀ x ∈ xs, K x w := fun w w' hf hp hk x hx => h x w w' hf hp (hk x hx)

structure Held (ok : Allow Action Choice State) (S : Bool → Prop) (K : World → Prop) (w : World)
    (l : Own) : Prop where
  inTx : l.inTx = false
  locked : l.locked = true
  clean : Clean ok l
  world : WorldOk w
  synced : S l.synced
  know : K w

section Held
variable {ok : Allow Action Choice State} {m : Mode} {α β : Type} {S : Bool → Prop}
  {K L E : World → Prop}
variable {w w' : World} {l : Own}

theorem Held.others (h : Held ok S K w l) (hK : Lasting K) (ho : others m l w w') :
    Held ok S K w' l :=
  { h with
    world := h.world.others ho
    know := hK w w' (ho.2.lock h.locked).1 (ho.2.lock h.locked).2.2 h.know }

theorem Held.imp (h : Held ok S K w l) (hK : K w → L w) : Held ok S L w l :=
  { h with know := hK h.know }

theorem Held.any (h : Held ok S K w l) : Held ok (fun _ => True) (fun _ => True) w l :=
  { h with
    synced := trivial
    know := trivial }

/-- How a part of `maintain` ends. -/
def HeldPost (ok : Allow Action Choice State) (S : Bool → Prop) (K : α → World → Prop)
    (E : World → Prop) : Except Err α → World → Own → Prop :=
  post (fun a => Held ok S (K a)) fun _ => Held ok S E

theorem stable_heldPost {K : α → World → Prop} (hK : ∀ a, Lasting (K a)) (hE : Lasting E) :
    StableQ (others m) (HeldPost ok S K E) :=
  StableQ.post (fun a _ _ _ ho h => h.others (hK a) ho) fun _ _ _ _ ho h => h.others hE ho

/-- An action on files, units and processes. -/
theorem safe_act (hK : Lasting K) (hL : Lasting L) (hE : Lasting E) {a : Action Unit} {call : Call}
    {effect : World → World} (hcall : a.call? = some call)
    (ha : ∀ c w l, respond c a (w, l) = plain c effect (w, l))
    (hg : ∀ w l, Held ok S K w l → guard m w l a ∧ WorldOk (effect w) ∧ L (effect w) ∧
      E (effect w) ∧ E w)
    (h : Held ok S K w l) :
    Safe sem ok (others m) (guard m) (HeldPost ok S (fun _ => L) E) (.call a) w l := by
  refine Safe.callStable (stable_heldPost (fun _ => hL) hE) fun w₁ h₁ => ?_
  have h := h.others hK h₁
  obtain ⟨hguard, hworld, hk, he, he'⟩ := hg w₁ l h
  refine ⟨hguard, fun r w₂ l₂ hn => ?_⟩
  rcases next_plain hcall (fun c => ha c w₁ l) hn with ⟨rfl, rfl, rfl⟩ |
      ⟨msg, done, -, rfl, rfl, rfl⟩
  · exact ⟨h.inTx, h.locked, h.clean, hworld, h.synced, hk⟩
  · cases done with
    | true => exact ⟨h.inTx, h.locked, h.clean, hworld, h.synced, he⟩
    | false => exact ⟨h.inTx, h.locked, h.clean, h.world, h.synced, he'⟩

/-- One that changes neither database nor files. -/
theorem safe_keep (hK : Lasting K) (hE : Lasting E) (hKE : ∀ w, K w → E w) {a : Action Unit}
    {call : Call} (effect : World → World) (hcall : a.call? = some call)
    (ha : ∀ c w l, respond c a (w, l) = plain c effect (w, l))
    (heffect : ∀ w, (effect w).db = w.db ∧ (effect w).files = w.files)
    (hg : ∀ w l, l.locked = true → guard m w l a) (h : Held ok S K w l) :
    Safe sem ok (others m) (guard m) (HeldPost ok S (fun _ => K) E) (.call a) w l := by
  refine safe_act hK hK hE hcall ha (fun w l h => ?_) h
  obtain ⟨hdb, hfiles⟩ := heffect w
  have hk : K (effect w) := hK w _ hfiles (by rw [hdb]; exact .refl _) h.know
  refine ⟨hg w l h.locked, ?_, hk, hKE _ hk, hKE _ h.know⟩
  rw [WorldOk, hdb, hfiles]
  exact h.world

theorem FilesOk.setFile {w : World} (h : WorldOk w) {p : Path} {data : Option Content}
    (hp : PathOk w.db p data) : WorldOk (w.setFile p data) := by
  refine ⟨h.1, fun q => ?_⟩
  by_cases hq : q = p
  · subst hq
    simpa using hp
  · simpa [hq] using h.2 q

/-- A file is written or removed. -/
theorem safe_setFile (hK : Lasting K) (hL : Lasting L) (hE : Lasting E) {p : Path}
    {data : Option Content} {a : Action Unit} {call : Call} (hcall : a.call? = some call)
    (ha : ∀ c w l, respond c a (w, l) = plain c (World.setFile p data) (w, l))
    (hg : ∀ w l, l.locked = true → PathOk w.db p data → guard m w l a)
    (hpath : ∀ w, WorldOk w → K w → PathOk w.db p data)
    (hset : ∀ w, K w → L (w.setFile p data) ∧ E (w.setFile p data) ∧ E w) (h : Held ok S K w l) :
    Safe sem ok (others m) (guard m) (HeldPost ok S (fun _ => L) E) (.call a) w l := by
  refine safe_act hK hL hE hcall ha (fun w l h => ?_) h
  have hp := hpath w h.world h.know
  exact ⟨hg w l h.locked hp, FilesOk.setFile h.world hp, hset w h.know⟩

/-- A `SELECT` outside a transaction. -/
theorem safe_query (hK : Lasting K) {L : β → World → Prop} (hL : ∀ b, Lasting (L b))
    (hE : Lasting E) {f : DB → β} (hf : ∀ w, WorldOk w → K w → L (f w.db) w ∧ E w)
    (h : Held ok S K w l) :
    Safe sem ok (others m) (guard m) (HeldPost ok S L E) (.call (.query f)) w l := by
  refine Safe.callStable (stable_heldPost hL hE) fun w₁ h₁ => ⟨trivial, fun r w₂ l₂ hn => ?_⟩
  have h := h.others hK h₁
  have hseen : w₁.seen l.inTx = w₁.db := by
    rw [h.inTx]
    rfl
  rcases next_read (b := f (w₁.seen l.inTx)) (f := .sqlite) rfl (fun _ => rfl) hn with
    ⟨rfl, rfl, rfl⟩ | ⟨msg, done, -, rfl, rfl, rfl⟩
  · rw [hseen]
    exact ⟨h.inTx, h.locked, h.clean, h.world, h.synced, (hf _ h.world h.know).1⟩
  · exact ⟨h.inTx, h.locked, h.clean, h.world, h.synced, (hf _ h.world h.know).2⟩

/-- Parts of `maintain` in sequence. -/
theorem safe_seq {K : α → World → Prop} {Q : Except Err β → World → Own → Prop} {p : P α}
    {f : α → P β} (hE : ∀ e w l, Held ok S E w l → Q (.error e) w l)
    (hp : Safe sem ok (others m) (guard m) (HeldPost ok S K E) p w l)
    (hf : ∀ a w l, Held ok S (K a) w l → Safe sem ok (others m) (guard m) Q (f a) w l) :
    Safe sem ok (others m) (guard m) Q (p.bind f) w l := by
  refine Safe.seq (isRely_others m) (hp.mono fun out w l hq => ?_)
    (K := fun a => Held ok S (K a)) hf
  cases out with
  | ok a => exact hq
  | error e => exact hE e w l hq

/-- A loop of steps that keep what is known. -/
theorem safe_loop {ι : Type} (hK : Lasting K) {f : ι → P PUnit} {xs : List ι}
    (hf : ∀ x ∈ xs, ∀ w l, Held ok S K w l →
      Safe sem ok (others m) (guard m) (HeldPost ok S (fun _ => K) E) (f x) w l)
    (h : Held ok S K w l) :
    Safe sem ok (others m) (guard m) (HeldPost ok S (fun _ => K) E) (xs.forM f) w l := by
  refine Safe.forM (isRely_others m) (I := fun _ => Held ok S K)
    (fun _ _ _ _ ho h => h.others hK ho) ?_ h
  intro pre x suf hxs w l h
  exact hf x (by simp [hxs]) w l h

/-- `try p except Exception: pass` -/
theorem safe_bestEffort (hK : Lasting K) {p : P Unit}
    (hp : Safe sem ok (others m) (guard m) (HeldPost ok S (fun _ => K) K) p w l) :
    Safe sem ok (others m) (guard m) (HeldPost ok S (fun _ => K) E) (bestEffort p) w l := by
  refine Safe.handle (isRely_others m) (E := fun _ => Held ok S K) (hp.mono fun out w l hq => ?_)
    fun e w l h => ?_
  · cases out with
    | ok a => exact hq
    | error e => exact hq
  · exact fun w₁ h₁ => h.others hK h₁

/-! ## Transactions without firewall calls -/

/-- Inside such a transaction; `X` speaks of the open transaction. -/
structure HeldTx (ok : Allow Action Choice State) (S : Bool → Prop) (K : World → Prop)
    (X : World → Tx → Prop) (w : World) (l : Own) : Prop where
  inTx : l.inTx = true
  locked : l.locked = true
  clean : Clean ok l
  world : WorldOk w
  synced : S l.synced
  know : K w
  writer : ∃ tx, w.writer = some tx ∧ tx.issued = [] ∧ X w tx

/-- What is said of an open transaction may depend on the committed database, which cannot change.
-/
def OfDb (X : World → Tx → Prop) : Prop := ∀ w w' tx, w'.db = w.db → X w tx → X w' tx

/-- A transaction that has just begun. -/
def Begun (w : World) (tx : Tx) : Prop := tx = ⟨w.db, [], false, []⟩

theorem ofDb_begun : OfDb Begun := by
  rintro w w' tx hdb rfl
  unfold Begun
  rw [hdb]

/-- One in which statements have run. -/
def Ran (Y : (String → Prop) → DB → DB → Prop) (w : World) (tx : Tx) : Prop :=
  tx.failed = false ∧ Y (· ∈ tx.drawn) w.db tx.copy

theorem ofDb_ran (Y : (String → Prop) → DB → DB → Prop) : OfDb (Ran Y) := by
  rintro w w' tx hdb ⟨hf, hy⟩
  exact ⟨hf, by rw [hdb]; exact hy⟩

theorem HeldTx.others {X : World → Tx → Prop} (h : HeldTx ok S K X w l) (hK : Lasting K)
    (hX : OfDb X) (ho : others m l w w') : HeldTx ok S K X w' l := by
  obtain ⟨tx, hw, hi, hx⟩ := h.writer
  obtain ⟨hdb, hwr⟩ := ho.2.tx h.inTx
  exact
    { h with
      world := h.world.others ho
      know := hK w w' (ho.2.lock h.locked).1 (by rw [hdb]; exact .refl _) h.know
      writer := ⟨tx, hwr.trans hw, hi, hX w w' tx hdb hx⟩ }

theorem HeldTx.own {X : World → Tx → Prop} (h : HeldTx ok S K X w l) :
    ∃ tx, ownTx (w, l) = some tx ∧ tx.issued = [] ∧ X w tx := by
  obtain ⟨tx, hw, hi, hx⟩ := h.writer
  exact ⟨tx, by simp [ownTx, h.inTx, hw], hi, hx⟩

/-- The way out of the body with an exception, the transaction open or not. -/
def HeldBroken (ok : Allow Action Choice State) (S : Bool → Prop) (K : World → Prop) (w : World)
    (l : Own) : Prop :=
  HeldTx ok S K (fun _ _ => True) w l ∨ Held ok S K w l

theorem HeldBroken.others (h : HeldBroken ok S K w l) (hK : Lasting K) (ho : others m l w w') :
    HeldBroken ok S K w' l :=
  h.imp (fun h => h.others hK (fun _ _ _ _ _ => trivial) ho) fun h => h.others hK ho

/-- After the transaction was rolled back. -/
theorem HeldTx.rolledBack {X : World → Tx → Prop} (h : HeldTx ok S K X w l) (hK : Lasting K)
    {tx : Tx} (hw : w.writer = some tx) : Held ok S K w.rollback (l.rolledBack tx) := by
  obtain ⟨tx', hw', hi, -⟩ := h.writer
  rw [hw] at hw'
  obtain rfl := Option.some.inj hw'
  exact ⟨rfl, h.locked, h.clean.rolledBack hi, h.world, h.synced, hK w _ rfl (.refl _) h.know⟩

theorem Held.note (h : Held ok S K w l) (es : List Entry) : Held ok S K w (l.note es) :=
  ⟨h.inTx, h.locked, h.clean, h.world, h.synced, h.know⟩

theorem HeldTx.note {X : World → Tx → Prop} (h : HeldTx ok S K X w l) (es : List Entry) :
    HeldTx ok S K X w (l.note es) :=
  ⟨h.inTx, h.locked, h.clean, h.world, h.synced, h.know, h.writer⟩

/-- A transaction of the holder of the lock; `S'` and `L` say what its COMMIT establishes. -/
theorem safe_heldTransaction {S' T : Bool → Prop} {L : α → World → Prop} {X : α → World → Tx → Prop}
    {body : P α} (hK : Lasting K) (hL : ∀ a, Lasting (L a)) (hE : Lasting E) (hX : ∀ a, OfDb (X a))
    (hbody : ∀ w₁ l₁, HeldTx ok S K Begun w₁ l₁ →
      Safe sem ok (others m) (guard m) (post (fun a => HeldTx ok S' K (X a)) fun _ =>
        HeldBroken ok T K) body w₁ l₁)
    (hcommit : ∀ a w l tx, HeldTx ok S' K (X a) w l → w.writer = some tx → X a w tx →
      CommitOk m.moves l w tx ∧ L a (w.commit tx))
    (hS : ∀ b, S b → T b) (hS' : ∀ b, S' b → T b) (hKE : ∀ w, K w → E w) (h : Held ok S K w l) :
    Safe sem ok (others m) (guard m) (post (fun a => Held ok S' (L a)) fun _ => Held ok T E)
      (transaction body) w l := by
  have hback : ∀ {w l}, Held ok S K w l → Held ok T E w l :=
    fun h => { h with synced := hS _ h.synced, know := hKE _ h.know }
  have hback' : ∀ {w l}, Held ok S' K w l → Held ok T E w l :=
    fun h => { h with synced := hS' _ h.synced, know := hKE _ h.know }
  have hout : ∀ {w l}, Held ok T K w l → Held ok T E w l := fun h => h.imp (hKE _)
  refine safe_transaction (isRely_others m) (fun _ _ => ⟨trivial, trivial⟩)
    (B := post (fun a => HeldTx ok S' K (X a)) fun _ => HeldBroken ok T K)
    (StableQ.post (fun a _ _ _ ho h => h.others hK (hX a) ho) fun _ _ _ _ ho h => h.others hK ho)
    (StableQ.post (fun a _ _ _ ho h => h.others (hL a) ho) fun _ _ _ _ ho h => h.others hE ho)
    h.inTx ?_ ?_ ?_ ?_
  · intro w₁ h₁
    exact ⟨h.inTx, fun msg done _ => (hback (h.others hK h₁)).note _⟩
  · intro w₁ h₁ _
    have hr := h.others hK h₁
    exact hbody _ _ ⟨rfl, hr.locked, hr.clean, hr.world, hr.synced, hK w₁ _ rfl (.refl _) hr.know,
      _, rfl, rfl, rfl⟩
  · intro a w₁ l₁ hin
    obtain ⟨tx, hw, hi, hx⟩ := hin.writer
    have htx : ownTx (w₁, l₁) = some tx := by simp [ownTx, hin.inTx, hw]
    obtain ⟨hc, hk⟩ := hcommit a w₁ l₁ tx hin hw hx
    refine ⟨tx, htx, ⟨tx, htx, hc⟩, ?_, fun msg left _ => ?_, fun msg left w₂ _ ho => ?_⟩
    · exact ⟨rfl, hin.locked, hin.clean, ⟨hc.inv, hc.files hin.world.2⟩, hin.synced, hk⟩
    · exact hback' ((hin.rolledBack hK hw).note _)
    · have hin₂ := hin.others hK (hX a) ho.of_note
      obtain ⟨tx₂, hw₂, -⟩ := hin₂.writer
      exact ⟨tx₂, by simp [ownTx, hin.inTx, hw₂], hback' (((hin₂.note _).rolledBack hK hw₂).note _)⟩
  · rintro e w₁ l₁ (hin | hr)
    · obtain ⟨tx, hw, -⟩ := hin.writer
      have htx : ownTx (w₁, l₁) = some tx := by simp [ownTx, hin.inTx, hw]
      unfold RollsBack
      rw [htx]
      exact hout ((hin.rolledBack hK hw).note _)
    · have htx : ownTx (w₁, l₁) = none := by simp [ownTx, hr.inTx]
      unfold RollsBack
      rw [htx]
      exact fun e' => hout (hr.note _)

/-- Statements and a COMMIT. `Y D a db db'` says what the statements do with random values from `D`.
-/
theorem safe_poolTransaction {L : α → World → Prop} {s : Sql α}
    {Y : (String → Prop) → α → DB → DB → Prop} (hK : Lasting K) (hL : ∀ a, Lasting (L a))
    (hE : Lasting E)
    (hs : ∀ w D, (∀ v, D v → isTokenHex v = true) → WorldOk w → K w →
      s.wp D (fun a db' => Y D a w.db db') w.db)
    (hcommit : ∀ a w l tx, l.locked = true → S l.synced → WorldOk w → K w → tx.issued = [] →
      tx.failed = false → Y (· ∈ tx.drawn) a w.db tx.copy → CommitOk m.moves l w tx ∧
        L a (w.commit tx))
    (hKE : ∀ w, K w → E w) (h : Held ok S K w l) :
    Safe sem ok (others m) (guard m) (HeldPost ok S L E) (transaction (sql s)) w l := by
  refine safe_heldTransaction (T := S) (X := fun a => Ran fun D => Y D a) hK hL hE
    (fun a => ofDb_ran _) ?_ ?_ (fun _ h => h) (fun _ h => h) hKE h
  · intro w₁ l₁ h₁
    refine Safe.callStable (StableQ.post (fun a _ _ _ ho h => h.others hK (ofDb_ran _) ho)
      fun _ _ _ _ ho h => h.others hK ho) fun w₂ h₂ => ?_
    have h₂ := h₁.others hK ofDb_begun h₂
    obtain ⟨tx, htx, hi, rfl⟩ := h₂.own
    have hw : w₂.writer = some ⟨w₂.db, [], false, []⟩ := by
      obtain ⟨tx, hw, -, rfl⟩ := h₂.writer
      exact hw
    refine ⟨⟨h₂.inTx, fun tx htx' => ?_⟩, fun r w₃ l₃ hn => ?_⟩
    · rw [hw] at htx'
      rw [← Option.some.inj htx']
      exact (hs w₂ _ (fun _ hv => hv) h₂.world h₂.know).mono fun _ _ _ => trivial
    have hknow : ∀ tx, K { w₂ with writer := tx } := fun tx => hK w₂ _ rfl (.refl _) h₂.know
    rcases next_sql htx hn with ⟨inp, db', -, hhex, rfl, rfl, ⟨a, hm, rfl⟩ | ⟨e, hm, rfl⟩⟩ |
        ⟨msg, gone, left, -, rfl, hg⟩
    · have hk := hs w₂ (· ∈ inp.tokens) (by simpa using hhex) h₂.world h₂.know inp fun v hv => hv
      rw [hm] at hk
      exact ⟨h₂.inTx, h₂.locked, h₂.clean, h₂.world, h₂.synced, hknow _, _, rfl, rfl, rfl, hk.1⟩
    · exact .inl ⟨h₂.inTx, h₂.locked, h₂.clean, h₂.world, h₂.synced, hknow _, _, rfl, rfl, trivial⟩
    · rcases hg with ⟨-, rfl, rfl⟩ | ⟨-, rfl, rfl⟩
      · exact .inr ((h₂.rolledBack hK hw).note _)
      · exact .inl ⟨h₂.inTx, h₂.locked, h₂.clean, h₂.world, h₂.synced, hknow _, _,
          rfl, rfl, trivial⟩
  · rintro a w₁ l₁ tx hin hw ⟨hf, hy⟩
    obtain ⟨tx', hw', hi, -⟩ := hin.writer
    rw [hw] at hw'
    obtain rfl := Option.some.inj hw'
    exact hcommit a w₁ l₁ tx hin.locked hin.synced hin.world hin.know hi hf hy

/-- `_sync_firewall`: when it returns, the ports of inactive slots were blocked. -/
theorem safe_poolSync (hK : Lasting K) (hE : Lasting E) (hKE : ∀ w, K w → E w)
    (h : Held ok S K w l) :
    Safe sem ok (others m) (guard m) (post (fun _ => Held ok (· = true) K) fun _ =>
      Held ok (fun _ => True) E)
      poolSync w l := by
  refine safe_heldTransaction (X := fun _ => Begun) hK (fun _ => hK) hE (fun _ => ofDb_begun) ?_ ?_
    (fun _ _ => trivial) (fun _ _ => trivial) hKE h
  · intro w₁ l₁ h₁
    refine (safe_sync h₁.world (fun _ => h₁.locked) ?_).mono ?_
    · intro tx htx
      obtain ⟨tx', htx', hi, -⟩ := h₁.own
      rw [htx'] at htx
      rw [← Option.some.inj htx]
      exact hi
    · obtain ⟨tx, hw, hi, hx⟩ := h₁.writer
      have hfix : ∀ {w₂}, Since m l₁ w₁ w₂ → WorldOk w₂ ∧ K w₂ ∧ w₂.writer = some tx ∧
          Begun w₂ tx := by
        intro w₂ hs
        obtain ⟨hdb, hwr⟩ := hs.tx h₁.inTx
        obtain ⟨hf, -, hp⟩ := hs.lock h₁.locked
        exact ⟨hs.ok h₁.world, hK _ _ hf hp h₁.know, hwr.trans hw, ofDb_begun _ _ _ hdb hx⟩
      rintro (e | a) w₂ l₂ hq
      · obtain ⟨hs, ⟨es, rfl⟩, -⟩ := hq
        obtain ⟨hok, hk, hwr, -⟩ := hfix hs
        exact .inl ⟨h₁.inTx, h₁.locked, h₁.clean, hok, trivial, hk, tx, hwr, hi, trivial⟩
      · obtain ⟨hs, es, rfl⟩ := hq
        obtain ⟨hok, hk, hwr, hx⟩ := hfix hs
        refine ⟨h₁.inTx, h₁.locked, fun _ => rfl, hok, ?_, hk, tx, hwr, hi, hx⟩
        simp [h₁.inTx]
  · rintro _ w₁ l₁ tx hin - rfl
    exact ⟨.nothing hin.world.1 rfl rfl rfl, hK w₁ _ rfl (.refl _) hin.know⟩

end Held

end WebProxyPanel
