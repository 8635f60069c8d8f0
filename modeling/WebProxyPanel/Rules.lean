import WebProxyPanel.Guarantee
/-!
# Rules for transactions, firewall calls and the sync

* `InTx` — inside the own transaction: what was committed when it began, the copy, the calls made so
  far.
* `Broken` — on the way out with an exception, the transaction still open or not.
* `safe_transaction` — from a body to its transaction; `safe_sql`, `safe_block`, `safe_unblock` for
  the steps of a body; `safe_sync` for the table replacement.
-/

namespace WebProxyPanel
open Effects

/-! ## Fault models -/

/-- A step of `wppctl sync`. -/
def Action.isSync {β : Type} : Action β → Bool
  | .ctlSelect _ | .ctlCurrent | .ctlReplace _ _ => true
  | _ => false

/-- The sync after a rolled back transaction with firewall calls does not fail. -/
def Recovers (ok : Allow Action Choice State) : Prop :=
  ∀ c (s : State) {β : Type} (a : Action β), s.2.owes = true → a.isSync = true → ok c a s →
    c.result ≠ .raised

/-- The process owes no sync. -/
def Clean (ok : Allow Action Choice State) (l : Own) : Prop := Recovers ok → l.owes = false

theorem Rely.of_own {w w' : World} {l l' : Own} (h : Rely l w w') (htx : l.inTx = l'.inTx)
    (hlk : l.locked = l'.locked) :
    Rely l' w w' := ⟨h.ok, fun hl => h.tx (htx.trans hl), fun hl => h.lock (hlk.trans hl)⟩

theorem others.of_note {m : Mode} {w w' : World} {l : Own} {es : List Entry}
    (h : others m (l.note es) w w') :
    others m l w w' := ⟨h.1, h.2.of_own rfl rfl⟩

section Rules
variable {ok : Allow Action Choice State} {m : Mode} {α β : Type}

/-- Between two operations. -/
structure Ready (ok : Allow Action Choice State) (w : World) (l : Own) : Prop where
  inTx : l.inTx = false
  locked : l.locked = false
  clean : Clean ok l
  world : WorldOk w

theorem WorldOk.others {w w' : World} {l : Own} (h : WorldOk w) (ho : others m l w w') :
    WorldOk w' := ho.2.ok h

theorem Ready.others {w w' : World} {l : Own} (h : Ready ok w l) (ho : others m l w w') :
    Ready ok w' l :=
  ⟨h.inTx, h.locked, h.clean, h.world.others ho⟩

/-- Inside the own transaction; `n` firewall calls were made before it. -/
structure InTx (ok : Allow Action Choice State) (locked : Bool) (D : DB) (n : Nat) (copy : DB)
    (calls : List FwCall) (w : World) (l : Own) : Prop where
  inTx : l.inTx = true
  locked : l.locked = locked
  clean : Clean ok l
  world : WorldOk w
  db : w.db = D
  writer : ∃ drawn, w.writer = some ⟨copy, calls, false, drawn⟩
  counter : l.firewallCalls = n + calls.length

/-- An exception is on its way out, after some firewall calls. -/
structure Broken (ok : Allow Action Choice State) (m : Mode) (locked : Bool) (D : DB) (n : Nat)
    (calls : List FwCall) (w : World) (l : Own) : Prop where
  locked : l.locked = locked
  world : WorldOk w
  db : m.solo = true → w.db = D
  counter : l.firewallCalls = n + calls.length
  inside : l.inTx = true → Clean ok l ∧ ∃ tx, w.writer = some tx ∧ tx.issued = calls
  outside : l.inTx = false → calls = [] → Clean ok l

section Stable
variable {locked : Bool} {D copy : DB} {n : Nat} {calls : List FwCall} {w w' : World} {l : Own}

theorem InTx.others (h : InTx ok locked D n copy calls w l) (ho : others m l w w') :
    InTx ok locked D n copy calls w' l :=
  { h with
    world := h.world.others ho
    db := (ho.2.tx h.inTx).1.trans h.db
    writer := by rw [(ho.2.tx h.inTx).2]; exact h.writer }

theorem Broken.others (h : Broken ok m locked D n calls w l) (ho : others m l w w') :
    Broken ok m locked D n calls w' l :=
  { h with
    world := h.world.others ho
    db := fun hs => by rw [ho.1 hs]; exact h.db hs
    inside := fun hl => by rw [(ho.2.tx hl).2]; exact h.inside hl }

theorem InTx.ownTx (h : InTx ok locked D n copy calls w l) :
    ∃ drawn, ownTx (w, l) = some ⟨copy, calls, false, drawn⟩ := by
  simpa [WebProxyPanel.ownTx, h.inTx] using h.writer

end Stable

end Rules

/-! ## Transactions -/

section Transaction
variable {ok : Allow Action Choice State} {R : Own → World → World → Prop}
  {G : Guard Action World Own} {α : Type}

/-- What a COMMIT leads to, from the end of a body. -/
structure Commits (ok : Allow Action Choice State) (R : Own → World → World → Prop)
    (G : Guard Action World Own) (Q : Except Err α → World → Own → Prop) (a : α) (w : World)
    (l : Own) (tx : Tx) : Prop where
  own : ownTx (w, l) = some tx
  guard : G w l .commit
  done : Q (.ok a) (w.commit tx) ({ l with inTx := false }.note [⟨.commit, .ok⟩])
  gone : ∀ msg left, ok (.sqlFail msg true left) .commit (w, l) →
    Q (.error (.sqlite msg)) w.rollback ((l.rolledBack tx).note [⟨.commit, .raised⟩])
  -- the transaction is still open, and is rolled back in a second step
  back : ∀ msg left w₁, ok (.sqlFail msg false left) .commit (w, l) →
  R (l.note [⟨.commit, .raised⟩]) w w₁ →
    ∃ tx₁, ownTx (w₁, l) = some tx₁ ∧ Q (.error (.sqlite msg)) w₁.rollback
      (((l.note [⟨.commit, .raised⟩]).rolledBack tx₁).note [⟨.rollback, .ok⟩])

/-- What the ROLLBACK after an exception leads to; without a transaction it raises. -/
def RollsBack (Q : Except Err α → World → Own → Prop) (e : Err) (w : World) (l : Own) : Prop :=
  match ownTx (w, l) with
  | some tx => Q (.error e) w.rollback ((l.rolledBack tx).note [⟨.rollback, .ok⟩])
  | none => ∀ e', Q (.error e') w (l.note [⟨.rollback, .ok⟩])

theorem ownTx_note (w : World) (l : Own) (es : List Entry) : ownTx (w, l.note es) = ownTx (w, l) :=
  rfl

theorem safe_transaction (hR : IsRely R) (hG : ∀ w l, G w l .inTransaction ∧ G w l .rollback)
    {B Q : Except Err α → World → Own → Prop} (hB : StableQ R B) (hQ : StableQ R Q) {body : P α}
    {w : World} {l : Own} (hl : l.inTx = false)
    (hbegin : ∀ w₁, R l w w₁ → G w₁ l .beginImmediate ∧ ∀ msg done,
      ok (.fail msg done) .beginImmediate (w₁, l) →
        Q (.error (.sqlite msg)) w₁ (l.note [⟨.begin_, .raised⟩]))
    (hbody : ∀ w₁, R l w w₁ → w₁.writer = none →
      Safe sem ok R G B body w₁.begin_ ({ l with inTx := true }.note [⟨.begin_, .ok⟩]))
    (hok : ∀ a w l, B (.ok a) w l → ∃ tx, Commits ok R G Q a w l tx)
    (herr : ∀ e w l, B (.error e) w l → RollsBack Q e w l) :
    Safe sem ok R G Q (transaction body) w l := by
  unfold transaction
  simp only [Prog.bind_eq, Prog.pure_eq]
  refine Safe.callThen hR hQ fun w₁ h₁ => ⟨(hG w₁ l).1, fun r w₂ l₂ hn => ?_⟩
  obtain ⟨rfl, rfl, rfl⟩ := next_inTransaction hn
  simp only [thenSafe, hl, Bool.false_eq_true, if_false]
  refine Safe.callThen hR hQ fun w₃ h₃ => ⟨(hbegin w₃ (hR.trans h₁ h₃)).1, fun r w₄ l₄ hn => ?_⟩
  rcases next_begin hn with ⟨rfl, hw, rfl, rfl⟩ | ⟨msg, done, hok', rfl, rfl, rfl⟩
  swap
  · exact (hbegin _ (hR.trans h₁ h₃)).2 msg done hok'
  simp only [thenSafe]
  refine Safe.bind hR (Safe.handle hR (E := fun e => B (.error e))
    ((hbody w₃ (hR.trans h₁ h₃) hw).mono ?_) ?_)
  · intro out w l hb
    cases out with
    | error e => exact hb
    | ok a =>
      -- COMMIT
      refine Safe.bind hR (Safe.tryCatch hR (Safe.call fun w₁ h₁ => ?_))
      obtain ⟨tx, hc⟩ := hok a w₁ l (hB _ _ _ _ h₁ hb)
      refine ⟨hc.guard, fun r w₂ l₂ hn w₃ h₃ => ?_⟩
      rcases next_commit hc.own hn with ⟨-, rfl, rfl, rfl⟩ | ⟨msg, gone, left, hok', rfl, hg⟩
      · show Safe sem ok R G Q (.ret a) w₃ _
        exact Safe.retStable hQ (hQ _ _ _ _ h₃ hc.done)
      · refine Safe.stable hR ?_ h₃
        refine Safe.callThen hR (StableQ.thenSafe hR hQ _) fun w₄ h₄ =>
          ⟨(hG _ _).1, fun r w₅ l₅ hn => ?_⟩
        obtain ⟨rfl, rfl, rfl⟩ := next_inTransaction hn
        rcases hg with ⟨rfl, rfl, rfl⟩ | ⟨rfl, rfl, rfl⟩
        · simp only [thenSafe, Own.note_inTx, Own.rolledBack_inTx, Bool.false_eq_true,
            Prog.runIf, if_false, Prog.ret_bind]
          exact Safe.raiseStable (StableQ.thenSafe hR hQ _) (hQ _ _ _ _ h₄ (hc.gone msg left hok'))
        · have hin : l.inTx = true := by
            by_contra hne
            have := hc.own
            simp [ownTx, hne] at this
          simp only [thenSafe, Own.note_inTx, hin, Prog.runIf, if_true]
          refine Safe.callThen hR (StableQ.thenSafe hR hQ _) fun w₆ h₆ =>
            ⟨(hG _ _).2, fun r w₇ l₇ hn => ?_⟩
          obtain ⟨tx₁, htx₁, hq⟩ := hc.back msg left w₆ hok' (hR.trans h₄ h₆)
          rcases next_rollback hn with ⟨tx, htx, rfl, rfl, rfl⟩ | ⟨htx, -, -, -⟩
          · rw [ownTx_note, htx₁] at htx
            obtain rfl := Option.some.inj htx
            simp only [thenSafe]
            exact Safe.raiseStable (StableQ.thenSafe hR hQ _) hq
          · rw [ownTx_note, htx₁] at htx
            simp at htx
  · intro e w l hb
    -- ROLLBACK
    refine Safe.callThen hR (StableQ.thenSafe hR hQ _) fun w₁ h₁ =>
      ⟨(hG w₁ l).2, fun r w₂ l₂ hn => ?_⟩
    have hr := herr e w₁ l (hB _ _ _ _ h₁ hb)
    unfold RollsBack at hr
    rcases next_rollback hn with ⟨tx, htx, rfl, rfl, rfl⟩ | ⟨htx, ⟨msg, rfl⟩, rfl, rfl⟩
    · rw [htx] at hr
      simp only [thenSafe]
      exact Safe.raiseStable (StableQ.thenSafe hR hQ _) hr
    · rw [htx] at hr
      exact hr (.sqlite msg)

end Transaction

/-! ## Steps of a body -/

section Body
variable {ok : Allow Action Choice State} {m : Mode} {α : Type}
variable {locked : Bool} {D copy : DB} {n : Nat} {calls : List FwCall} {w : World} {l : Own}

/-- What a step of a body leaves. -/
def BodyPost (ok : Allow Action Choice State) (m : Mode) (locked : Bool) (D : DB) (n : Nat)
    (calls : List FwCall) (K : α → DB → Prop) : Except Err α → World → Own → Prop :=
  post (fun a w l => ∃ copy, InTx ok locked D n copy calls w l ∧ K a copy) fun _ =>
    Broken ok m locked D n calls

theorem stable_bodyPost (K : α → DB → Prop) :
    StableQ (others m) (BodyPost ok m locked D n calls K) :=
  StableQ.post (fun _ _ _ _ ho ⟨copy, h, hk⟩ => ⟨copy, h.others ho, hk⟩) fun _ _ _ _ ho h =>
    h.others ho

theorem Clean.note (h : Clean ok l) (es : List Entry) : Clean ok (l.note es) := h

theorem Clean.rolledBack (h : Clean ok l) {tx : Tx} (hcalls : tx.issued = []) :
    Clean ok (l.rolledBack tx) := by
  intro hr
  simp [hcalls, h hr]

/-- The transaction is gone: a statement, or COMMIT, has failed. -/
theorem InTx.broken_gone (h : InTx ok locked D n copy calls w l) {tx : Tx} (htx : tx.issued = calls)
    (es : List Entry) :
    Broken ok m locked D n calls w.rollback ((l.rolledBack tx).note es) where
  locked := h.locked
  world := h.world
  db _ := h.db
  counter := h.counter
  inside hl := by simp at hl
  outside _ hc := Clean.note (h.clean.rolledBack (htx.trans hc)) es

/-- The transaction is open, whatever its copy holds. -/
theorem InTx.broken_open (h : InTx ok locked D n copy calls w l) {tx : Tx} (htx : tx.issued = calls)
    (es : List Entry) :
    Broken ok m locked D n calls { w with writer := some tx } (l.note es) where
  locked := h.locked
  world := h.world
  db _ := h.db
  counter := h.counter
  inside _ := ⟨h.clean, tx, rfl, htx⟩
  outside hl := by
    rw [Own.note_inTx, h.inTx] at hl
    simp at hl

theorem safe_sql (h : InTx ok locked D n copy calls w l) {s : Sql α} {K : α → DB → Prop}
    (hs : s.wp (fun v => isTokenHex v = true) K copy) :
    Safe sem ok (others m) (guard m) (BodyPost ok m locked D n calls K) (sql s) w l := by
  refine Safe.callStable (stable_bodyPost K) fun w₁ h₁ => ?_
  have h' := h.others h₁
  obtain ⟨drawn, htx⟩ := h'.ownTx
  obtain ⟨drawn', hw⟩ := h'.writer
  refine ⟨⟨h'.inTx, fun tx htx' => ?_⟩, fun r w₂ l₂ hn => ?_⟩
  · rw [hw] at htx'
    rw [← Option.some.inj htx']
    exact hs.mono fun _ _ _ => trivial
  rcases next_sql htx hn with ⟨inp, db', -, hhex, rfl, rfl, ⟨a, hm, rfl⟩ | ⟨e, hm, rfl⟩⟩ |
      ⟨msg, gone, left, -, rfl, hg⟩
  · have hk := hs inp (by simpa using hhex)
    rw [hm] at hk
    exact ⟨db', { h' with writer := ⟨_, rfl⟩ }, hk.1⟩
  · exact h'.broken_open rfl _
  · rcases hg with ⟨-, rfl, rfl⟩ | ⟨-, rfl, rfl⟩
    · exact h'.broken_gone rfl _
    · exact h'.broken_open rfl _

/-- A firewall call inside a transaction of a user operation. -/
theorem safe_fwCall (h : InTx ok false D n copy calls w l) {call : FwCall} {K : DB → Prop}
    (hk : K copy) (hopens : call.opens ≠ [] → m.opens = true)
    (hports : ∀ p ∈ call.opens, OnActivePort D p) :
    Safe sem ok (others m) (guard m) (BodyPost ok m false D n (calls ++ [call]) fun _ => K)
      (.call (.fwCall call)) w l := by
  refine Safe.callStable (stable_bodyPost _) fun w₁ h₁ => ?_
  have h' := h.others h₁
  obtain ⟨drawn, hw⟩ := h'.writer
  refine ⟨⟨h'.inTx, h'.locked, hopens, ?_⟩, fun r w₂ l₂ hn => ?_⟩
  · rw [h'.db]
    exact hports
  have hc := h'.counter
  have hlen : l.firewallCalls + 1 = n + (calls ++ [call]).length := by
    rw [List.length_append, List.length_singleton]
    omega
  rcases next_fwCall hn with ⟨rfl, rfl, rfl⟩ | ⟨msg, done, -, rfl, rfl, rfl⟩
  · exact ⟨copy, { inTx := h'.inTx, locked := h'.locked, clean := h'.clean, world := h'.world, db := h'.db,
                   writer := ⟨drawn, by simp [hw]⟩, counter := hlen }, hk⟩
  · refine ⟨h'.locked, h'.world, fun _ => h'.db, hlen,
      fun _ => ⟨h'.clean, ⟨copy, calls ++ [call], true, drawn⟩, ?_, rfl⟩, fun hl => ?_⟩
    · simp [hw]
    · rw [Own.note_inTx, Own.called_inTx, h'.inTx] at hl
      simp at hl

theorem safe_block (h : InTx ok false D n copy calls w l) {K : DB → Prop} (hk : K copy)
    (ports : List Int) :
    Safe sem ok (others m) (guard m)
      (BodyPost ok m false D n (calls ++ blockCalls ports) fun _ => K)
      (block ports) w l := by
  unfold block blockCalls
  split
  · rw [List.append_nil]
    exact Safe.retStable (stable_bodyPost _) ⟨copy, h, hk⟩
  · exact safe_fwCall h hk (by simp [FwCall.opens]) (by simp [FwCall.opens])

theorem safe_unblock (h : InTx ok false D n copy calls w l) {K : DB → Prop} (hk : K copy)
    (hopens : m.opens = true) {ports : List Int} (hports : ∀ p ∈ ports, OnActivePort D p) :
    Safe sem ok (others m) (guard m)
      (BodyPost ok m false D n (calls ++ unblockCalls ports) fun _ => K)
      (unblock ports) w l := by
  unfold unblock unblockCalls
  split
  · rw [List.append_nil]
    exact Safe.retStable (stable_bodyPost _) ⟨copy, h, hk⟩
  · refine safe_fwCall h hk (fun _ => hopens) fun p hp => hports p ?_
    exact mem_sortedSet.1 hp

/-- Steps of a body in sequence. -/
theorem safe_then {β : Type} {K : α → DB → Prop} {Q : Except Err β → World → Own → Prop} {p : P α}
    {f : α → P β} (hE : ∀ e calls w l, Broken ok m locked D n calls w l → Q (.error e) w l)
    (hp : Safe sem ok (others m) (guard m) (BodyPost ok m locked D n calls K) p w l)
    (hf : ∀ a copy w l, InTx ok locked D n copy calls w l → K a copy →
      Safe sem ok (others m) (guard m) Q (f a) w l) :
    Safe sem ok (others m) (guard m) Q (p.bind f) w l := by
  refine Safe.seq (isRely_others m) (hp.mono fun out w l hq => ?_) (K := fun a w l => ∃ copy,
    InTx ok locked D n copy calls w l ∧ K a copy) fun a w l ⟨copy, h, hk⟩ => hf a copy w l h hk
  cases out with
  | ok a => exact hq
  | error e => exact hE e calls w l hq

end Body

/-! ## The sync -/

/-- The checks of `read_db` pass. -/
theorem Inv.ports_inRange {db : DB} (h : Inv db) : (allPorts db).all portInRange = true := by
  refine List.all_eq_true.2 fun p hp => ?_
  obtain ⟨s, hs, rfl⟩ := List.mem_map.1 hp
  have hs := Table.mem_orderBy.1 hs
  obtain ⟨h0, h1⟩ := h.idx_bounds hs
  have hk : s.shardId ∈ db.shards.map (·.id) := h.consistent.slotShard s hs
  rw [h.layout.mem_ids] at hk
  have hlim := h.layout.limit
  have hmax : maxShards = 625 := by decide
  rw [h.layout.ports s hs]
  have hsize : (shardSize : Int) = 16 := rfl
  unfold portInRange slotPort slotPortBase slotPortLast
  rw [hsize, Bool.and_eq_true, decide_eq_true_eq, decide_eq_true_eq]
  omega

theorem Inv.shards_inRange {db : DB} (h : Inv db) : (allShards db).all shardInRange = true := by
  refine List.all_eq_true.2 fun k hk => ?_
  obtain ⟨sh, hsh, rfl⟩ := List.mem_map.1 hk
  have hk : sh.id ∈ db.shards.map (·.id) := List.mem_map_of_mem (Table.mem_orderBy.1 hsh)
  rw [h.layout.mem_ids] at hk
  have hlim := h.layout.limit
  simp only [shardInRange, Bool.and_eq_true, decide_eq_true_eq]
  omega

section Sync
variable {ok : Allow Action Choice State} {m : Mode} {w₀ w : World} {l₀ l : Own}

/-- What has happened since `w₀`, as far as a process sees that has not committed since. -/
structure Since (m : Mode) (l₀ : Own) (w₀ w : World) : Prop extends Rely l₀ w₀ w where
  solo : m.solo = true → w.db = w₀.db ∧ w.writer = w₀.writer

theorem Since.refl (w : World) : Since m l w w := ⟨.refl l w, fun _ => ⟨rfl, rfl⟩⟩

/-- The record has grown, and nothing else. -/
def Noted (l₀ l : Own) : Prop := ∃ es, l = l₀.note es

theorem Noted.refl (l : Own) : Noted l l := ⟨[], l.note_nil.symm⟩

theorem Noted.note (h : Noted l₀ l) (es : List Entry) : Noted l₀ (l.note es) := by
  obtain ⟨fs, rfl⟩ := h
  exact ⟨fs ++ es, by simp [Own.note]⟩

theorem Since.others (h : Since m l₀ w₀ w) {w' : World} (ho : others m l w w') (hl : Noted l₀ l) :
    Since m l₀ w₀ w' := by
  obtain ⟨es, rfl⟩ := hl
  exact { toRely := h.toRely.trans (ho.2.of_own rfl rfl), solo := fun hs => by rw [ho.1 hs]; exact h.solo hs }

theorem Since.replace (h : Since m l₀ w₀ w) (inTx : Bool) (ports blocked : List Int) :
    Since m l₀ w₀ (w.replace inTx ports blocked) :=
  { toRely := h.toRely.trans ⟨id, fun _ => ⟨rfl, rfl⟩, fun _ => ⟨rfl, rfl, .refl _⟩⟩, solo := h.solo }

/-- How the sync ended. -/
def SyncPost (ok : Allow Action Choice State) (m : Mode) (w₀ : World) (l₀ : Own) :
    Except Err Unit → World → Own → Prop :=
  post (fun _ w l => Since m l₀ w₀ w ∧ Noted l₀.replaced l)
    fun _ w l => Since m l₀ w₀ w ∧ Noted l₀ l ∧ Clean ok l₀

theorem stable_syncPost : StableQ (others m) (SyncPost ok m w₀ l₀) := by
  refine StableQ.post ?_ ?_
  · rintro _ w l w₁ ho ⟨hs, es, rfl⟩
    have hr := hs.toRely.trans (ho.2.of_own rfl rfl)
    exact ⟨{ toRely := hr, solo := fun h => by rw [ho.1 h]; exact hs.solo h }, es, rfl⟩
  · rintro _ w l w₁ ho ⟨hs, hl, hc⟩
    exact ⟨hs.others ho hl, hl, hc⟩

/-- A read of the sync fails only where the recovery may. -/
theorem clean_of_fail {β : Type} {a : Action β} (ha : a.isSync = true) {msg : String} {done : Bool}
    {w : World} {l : Own} (hl : Noted l₀ l) (hok : ok (.fail msg done) a (w, l)) : Clean ok l₀ := by
  obtain ⟨es, rfl⟩ := hl
  intro hr
  by_contra hne
  exact hr _ _ a (eq_true_of_ne_false hne) ha hok rfl

/-- The sync replaces the table by what the committed database says, when nothing can happen in
between. -/
theorem safe_sync (hw : WorldOk w₀) (hlock : l₀.inTx = true → l₀.locked = true)
    (hissued : ∀ tx, ownTx (w₀, l₀) = some tx → tx.issued = []) :
    Safe sem ok (others m) (guard m) (SyncPost ok m w₀ l₀) syncFirewall w₀ l₀ := by
  have hR := isRely_others m
  have hQ : StableQ (others m) (SyncPost ok m w₀ l₀) := stable_syncPost
  have hfix : ∀ {w}, Since m l₀ w₀ w → l₀.inTx = true ∨ m.solo = true → w.db = w₀.db ∧
      w.writer = w₀.writer := by
    rintro w hs (ht | ht)
    · exact hs.tx ht
    · exact hs.solo ht
  unfold syncFirewall
  simp only [Prog.bind_eq]
  -- the three reads of the database
  have n₀ := Noted.refl l₀
  refine Safe.callThen hR hQ fun w₁ h₁ => ⟨trivial, fun r w₂ l₂ hn => ?_⟩
  have s₁ := (Since.refl w₀).others h₁ n₀
  rcases next_read (b := allPorts w₁.db) (f := .system) rfl (fun _ => rfl) hn with
    ⟨rfl, rfl, rfl⟩ | ⟨msg, done, hok, rfl, rfl, rfl⟩
  swap
  · exact ⟨s₁, n₀.note _, clean_of_fail rfl n₀ hok⟩
  simp only [thenSafe]
  have n₁ := n₀.note [⟨.ctlSelect, .ok⟩]
  refine Safe.callThen hR hQ fun w₃ h₃ => ⟨trivial, fun r w₄ l₄ hn => ?_⟩
  have s₃ := s₁.others h₃ n₁
  rcases next_read (b := blockedPorts w₃.db) (f := .system) rfl (fun _ => rfl) hn with
    ⟨rfl, rfl, rfl⟩ | ⟨msg, done, hok, rfl, rfl, rfl⟩
  swap
  · exact ⟨s₃, n₁.note _, clean_of_fail rfl n₁ hok⟩
  simp only [thenSafe]
  have n₃ := n₁.note [⟨.ctlSelect, .ok⟩]
  refine Safe.callThen hR hQ fun w₅ h₅ => ⟨trivial, fun r w₆ l₆ hn => ?_⟩
  have s₅ := s₃.others h₅ n₃
  rcases next_read (b := allShards w₅.db) (f := .system) rfl (fun _ => rfl) hn with
    ⟨rfl, rfl, rfl⟩ | ⟨msg, done, hok, rfl, rfl, rfl⟩
  swap
  · exact ⟨s₅, n₃.note _, clean_of_fail rfl n₃ hok⟩
  simp only [thenSafe]
  have n₅ := n₃.note [⟨.ctlSelect, .ok⟩]
  have hp := (s₁.ok hw).1.ports_inRange
  have hsh := (s₅.ok hw).1.shards_inRange
  simp only [hp, hsh, not_true, if_false]
  refine Safe.callThen hR hQ fun w₇ h₇ => ⟨trivial, fun r w₈ l₈ hn => ?_⟩
  have s₇ := s₅.others h₇ n₅
  rcases next_read (b := w₇.blocked) (f := .system) rfl (fun _ => rfl) hn with
    ⟨rfl, rfl, rfl⟩ | ⟨msg, done, hok, rfl, rfl, rfl⟩
  swap
  · exact ⟨s₇, n₅.note _, clean_of_fail rfl n₅ hok⟩
  simp only [thenSafe]
  have n₇ := n₅.note [⟨.ctlCurrent, .ok⟩]
  -- the replacement
  refine Safe.callStable hQ fun w₉ h₉ => ⟨?_, fun r w' l' hn => ?_⟩
  · refine ⟨hlock, fun hcond => ?_⟩
    have h₀ := hfix (s₇.others h₉ n₇) hcond
    refine ⟨by rw [(hfix s₁ hcond).1, h₀.1], by rw [(hfix s₃ hcond).1, h₀.1], fun tx htx => hissued tx ?_⟩
    simp only [ownTx, Own.note_inTx, h₀.2] at htx
    exact htx
  · have s₉ := s₇.others h₉ n₇
    rcases next_ctlReplace hn with ⟨-, rfl, rfl, rfl⟩ | ⟨msg, done, hok, rfl, rfl, rfl⟩
    · obtain ⟨es, hes⟩ := n₇
      rw [hes]
      exact ⟨s₉.replace _ _ _, es ++ [⟨.ctlReplace, .ok⟩], by simp [Own.replaced, Own.note]⟩
    · refine ⟨?_, n₇.note _, clean_of_fail rfl n₇ hok⟩
      cases done with
      | false => exact s₉
      | true => exact s₉.replace _ _ _

end Sync

end WebProxyPanel
