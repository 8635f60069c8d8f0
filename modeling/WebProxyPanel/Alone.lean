import WebProxyPanel.Inputs
import WebProxyPanel.Rules
import WebProxyPanel.Maintain
/-!
# One process alone, step by step

What one process does when nothing happens between its steps, followed exactly: database, files and
units.

* `Phase` — how far `apply` has come, and whether a call has failed, read off the record of calls.
* `At` — a state of the process between two actions.
* `Fails` — the way out with an exception, after the one call that fails.
* `alone_*` — one rule an action, and one each for loops, transactions and the sync.
-/

namespace WebProxyPanel
open Effects

/-! ## The record of calls -/

/-- No target is written yet; targets are written; the new configuration answers; a call has failed.
A failure is handled if the source has a path for it that aborts the staged rows. -/
inductive Phase where
  | checking
  | writing
  | healthy
  | failed (handled : Bool)
deriving DecidableEq, Repr

namespace Phase

/-- A call succeeds. -/
def succeed : Phase → Call → Phase
  | .checking, .writeFile .profiles _ => .writing
  | .writing, .waitHealthy _ => .healthy
  | p, _ => p

/-- A call does not. -/
def fail : Phase → Entry → Phase
  | .checking, ⟨.writeFile .profiles _, _⟩ => .failed true
  | .checking, ⟨.relayCheck, .no⟩ => .failed true
  | .checking, _ => .failed false
  | .writing, _ => .failed true
  | .healthy, _ => .failed false
  | .failed handled, _ => .failed handled

def next (p : Phase) (e : Entry) : Phase := if e.result = .ok then p.succeed e.call else p.fail e

def isFailed : Phase → Bool
  | .failed _ => true
  | _ => false

/-- A failure of a call that does not count as a step of its own. -/
def fails : Phase → Phase
  | .writing => .failed true
  | .failed handled => .failed handled
  | _ => .failed false

end Phase

/-- The phase after these calls. -/
def phase (es : List Entry) : Phase := es.foldl Phase.next .checking

/-- Calls that mark no phase. -/
def Call.neutral : Call → Bool
  | .writeFile .profiles _ => false
  | .relayCheck => false
  | .waitHealthy _ => false
  | _ => true

theorem Phase.next_ok {c : Call} (hc : c.neutral = true) (p : Phase) : p.next ⟨c, .ok⟩ = p := by
  unfold Phase.next
  rw [if_pos rfl]
  unfold Phase.succeed
  split <;> simp_all [Call.neutral]

theorem Phase.next_raised {c : Call} (hc : c.neutral = true) (p : Phase) :
    p.next ⟨c, .raised⟩ = p.fails := by
  unfold Phase.next
  rw [if_neg (by simp)]
  unfold Phase.fail Phase.fails
  split <;> simp_all [Call.neutral]

@[simp] theorem Phase.next_failed (handled : Bool) (e : Entry) :
    (Phase.failed handled).next e = .failed handled := by
  unfold Phase.next
  split <;> rfl

theorem phase_note (l : Own) (e : Entry) : phase (l.note [e]).trace = (phase l.trace).next e := by
  simp [phase]

/-- No call has failed. -/
def Calm (es : List Entry) : Prop := ∀ e ∈ es, e.result = .ok

theorem Phase.next_calm {p : Phase} {e : Entry} (he : e.result = .ok) (h : p.isFailed = false) :
    (p.next e).isFailed = false := by
  unfold Phase.next
  rw [if_pos he]
  unfold Phase.succeed
  split
  · rfl
  · rfl
  · exact h

theorem phase_calm {es : List Entry} (h : Calm es) : (phase es).isFailed = false := by
  have : ∀ {p : Phase}, p.isFailed = false → (es.foldl Phase.next p).isFailed = false := by
    induction es with
    | nil => exact id
    | cons e es ih =>
      intro p hp
      exact ih (fun x hx => h x (List.mem_cons_of_mem _ hx))
        (Phase.next_calm (h e List.mem_cons_self) hp)
  exact this rfl

/-! ## States -/

def alone (_ : Own) (w w' : World) : Prop := w = w'

theorem isRely_alone : IsRely alone := isRely_eq

theorem stable_alone {α : Type} (Q : Except Err α → World → Own → Prop) : StableQ alone Q := by
  rintro out w l _ rfl h
  exact h

/-- What a process changes here. -/
structure Pool where
  db : DB
  files : Path → Option Content
  units : Finset Int

def World.pool (w : World) : Pool := ⟨w.db, w.files, w.units⟩

/-- Between two actions, in a transaction or outside. -/
structure At (tx : Option Tx) (v : Pool) (p : Phase) (w : World) (l : Own) : Prop where
  inTx : l.inTx = tx.isSome
  writer : w.writer = tx
  pool : w.pool = v
  phase : phase l.trace = p

/-! ## Fault models -/

/-- At most one call fails. -/
def OneFault (ok : Allow Action Choice State) : Prop :=
  ∀ c (s : State) {β : Type} (a : Action β), ok c a s → c.result ≠ .ok → Calm s.2.trace

/-- The action can succeed. -/
def can (w : World) (l : Own) {β : Type} (a : Action β) : Prop :=
  ∃ c r s', c.result = .ok ∧ sem.perform c a (w, l) = some (r, s')

theorem can_of {w : World} {l : Own} {β : Type} {a : Action β} (c : Choice) (hc : c.result = .ok)
    (h : (respond c a (w, l)).isSome = true) : can w l a := by
  obtain ⟨x, hx⟩ := Option.isSome_iff_exists.1 h
  exact ⟨c, x.1, (x.2.1, x.2.2.note (entries c a)), hc, by simp [sem, perform, hx]⟩

/-- Where at most one call fails, the program never waits for something that cannot happen. -/
def eligible (ok : Allow Action Choice State) (w : World) (l : Own) {β : Type} (a : Action β) :
    Prop :=
  OneFault ok → can w l a

/-- An exception, after the one call that fails. -/
def Fails (ok : Allow Action Choice State) (p p' : Phase) (I : Pool → Prop) (_ : Err) (w : World)
    (l : Own) : Prop :=
  OneFault ok → p.isFailed = false ∧ ∃ v, I v ∧ At none v p' w l

/-- An exception, when the handled or unhandled failure lies behind. -/
def Hurt (ok : Allow Action Choice State) (handled : Bool) (I : Pool → Prop) (_ : Err) (w : World)
    (l : Own) : Prop :=
  OneFault ok → ∃ v, I v ∧ At none v (.failed handled) w l

/-- The same right after that call, in a transaction or outside. -/
def Broke (ok : Allow Action Choice State) (tx : Option Tx) (v : Pool) (p p' : Phase) (_ : Err)
    (w : World) (l : Own) : Prop :=
  OneFault ok → p.isFailed = false ∧ At tx v p' w l

section Rules
variable {ok : Allow Action Choice State} {α β : Type} {tx : Option Tx} {v v₁ : Pool} {p : Phase}
  {w : World} {l : Own}

theorem OneFault.phase (hone : OneFault ok) {c : Choice} {a : Action β} (h : At tx v p w l)
    (hok : ok c a (w, l)) (hc : c.result ≠ .ok) : p.isFailed = false := by
  rw [← h.phase]
  exact phase_calm (hone c (w, l) a hok hc)

/-- After a failure no other call fails. -/
theorem Fails.elim {handled : Bool} {p' : Phase} {I : Pool → Prop} {e : Err} {C : Prop}
    (hone : OneFault ok) (h : Fails ok (.failed handled) p' I e w l) : C := by
  have := (h hone).1
  simp [Phase.isFailed] at this

theorem Fails.mono {p' : Phase} {I J : Pool → Prop} {e : Err} (hIJ : ∀ v, I v → J v)
    (h : Fails ok p p' I e w l) :
    Fails ok p p' J e w l := fun hone => (h hone).imp_right fun ⟨v, hi, ha⟩ => ⟨v, hIJ v hi, ha⟩

theorem Fails.hurt {handled : Bool} {I J : Pool → Prop} {e : Err} (hIJ : ∀ v, I v → J v)
    (h : Fails ok p (.failed handled) I e w l) : Hurt ok handled J e w l :=
  fun hone => (h hone).2.imp fun v hv => hv.imp_left (hIJ v)

theorem Hurt.mono {handled : Bool} {I J : Pool → Prop} {e : Err} (hIJ : ∀ v, I v → J v)
    (h : Hurt ok handled I e w l) :
    Hurt ok handled J e w l := fun hone => (h hone).imp fun v hv => hv.imp_left (hIJ v)

theorem Broke.hurt {handled : Bool} {I : Pool → Prop} {e : Err} (hi : I v)
    (h : Broke ok none v p (.failed handled) e w l) :
    Hurt ok handled I e w l := fun hone => ⟨v, hi, (h hone).2⟩

theorem At.note {e : Entry} (h : At tx v p w l) : At tx v (p.next e) w (l.note [e]) where
  inTx := h.inTx
  writer := h.writer
  pool := h.pool
  phase := by rw [phase_note, h.phase]

theorem At.next {e : Entry} {p' : Phase} (h : At tx v p w l) (hp : p.next e = p') :
    At tx v p' w (l.note [e]) := hp ▸ h.note

/-- Two programs in sequence; what the first one leaves on its way out is weakened. -/
theorem alone_seq {K : α → World → Own → Prop} {L : β → World → Own → Prop}
    {E E' : Err → World → Own → Prop} {q : P α} {f : α → P β}
    (hp : Safe sem ok alone (eligible ok) (post K E') q w l) (hE : ∀ e w l, E' e w l → E e w l)
    (hf : ∀ a w l, K a w l → Safe sem ok alone (eligible ok) (post L E) (f a) w l) :
    Safe sem ok alone (eligible ok) (post L E) (q.bind f) w l := by
  refine Safe.seq isRely_alone (hp.mono ?_) hf
  rintro (e | a) w l hq
  · exact hE e w l hq
  · exact hq

/-- An action on the world alone. -/
theorem alone_plain {a : Action Unit} {call : Call} (effect : World → World)
    (hcall : a.call? = some call) (ha : ∀ c, respond c a (w, l) = plain c effect (w, l))
    (hw : (effect w).writer = w.writer) (hv : w.pool = v → (effect w).pool = v₁)
    (h : At none v p w l) :
    Safe sem ok alone (eligible ok) (post (fun _ => At none v₁ (p.next ⟨call, .ok⟩))
      (Fails ok p (p.next ⟨call, .raised⟩) fun u => u = v ∨ u = v₁)) (.call a) w l := by
  refine Safe.callStable (stable_alone _) ?_
  rintro _ rfl
  have hdone : At none v₁ p (effect w) l := ⟨h.inTx, hw.trans h.writer, hv h.pool, h.phase⟩
  refine ⟨fun _ => can_of .ok rfl (by simp [ha, plain]), fun r w₂ l₂ hn => ?_⟩
  rcases next_plain hcall ha hn with ⟨rfl, rfl, rfl⟩ | ⟨msg, done, hok, rfl, rfl, rfl⟩
  · exact hdone.note
  · intro hone
    refine ⟨hone.phase h hok (by simp [Choice.result]), ?_⟩
    cases done with
    | true => exact ⟨v₁, .inr rfl, hdone.note⟩
    | false => exact ⟨v, .inl rfl, h.note⟩

/-- One that changes nothing here, inside or outside a transaction. -/
theorem alone_read {a : Action β} {call : Call} {b : β} {f : String → Err}
    (hcall : a.call? = some call) (ha : ∀ c, respond c a (w, l) = read c b f (w, l))
    (h : At tx v p w l) :
    Safe sem ok alone (eligible ok) (post (fun x w l => x = b ∧ At tx v (p.next ⟨call, .ok⟩) w l)
      (Broke ok tx v p (p.next ⟨call, .raised⟩))) (.call a) w l := by
  refine Safe.callStable (stable_alone _) ?_
  rintro _ rfl
  refine ⟨fun _ => can_of .ok rfl (by simp [ha, read]), fun r w₂ l₂ hn => ?_⟩
  rcases next_read hcall ha hn with ⟨rfl, rfl, rfl⟩ | ⟨msg, done, hok, rfl, rfl, rfl⟩
  · exact ⟨rfl, h.note⟩
  · exact fun hone => ⟨hone.phase h hok (by simp [Choice.result]), h.note⟩

/-- A read that marks no phase. -/
theorem alone_look {a : Action β} {call : Call} {b : β} {f : String → Err}
    (hcall : a.call? = some call) (hc : call.neutral = true)
    (ha : ∀ c, respond c a (w, l) = read c b f (w, l)) (h : At tx v p w l) :
    Safe sem ok alone (eligible ok)
      (post (fun x w l => x = b ∧ At tx v p w l) (Broke ok tx v p p.fails)) (.call a) w l := by
  have : Safe sem ok alone (eligible ok) _ (.call a) w l := alone_read hcall ha h
  rwa [Phase.next_ok hc, Phase.next_raised hc] at this

/-! ## Transactions -/

/-- The phase on the way out: a call has failed, or the statements themselves have raised. -/
def Stops (p p' : Phase) (raised : Prop) : Prop :=
  p.isFailed = false ∧ p' = p.fails ∨ raised ∧ p' = p

/-- The way out of a transaction; `Z` says what its statements raise. -/
def TxFails (ok : Allow Action Choice State) (v : Pool) (p : Phase) (Z : Err → Prop) (e : Err)
    (w : World) (l : Own) : Prop :=
  OneFault ok → ∃ p', Stops p p' (Z e) ∧ At none v p' w l

/-- The same before the ROLLBACK, the transaction open or not. -/
def BodyFails (ok : Allow Action Choice State) (v : Pool) (p : Phase) (Z : Err → Prop) (e : Err)
    (w : World) (l : Own) : Prop :=
  OneFault ok → ∃ tx p', Stops p p' (tx.isSome = true ∧ Z e) ∧ At tx v p' w l

theorem Broke.bodyFails {Z : Err → Prop} {e : Err} (h : Broke ok tx v p p.fails e w l) :
    BodyFails ok v p Z e w l :=
  fun hone => ⟨tx, p.fails, .inl ⟨(h hone).1, rfl⟩, (h hone).2⟩

theorem Broke.txFails {Z : Err → Prop} {e : Err} (h : Broke ok none v p p.fails e w l) :
    TxFails ok v p Z e w l :=
  fun hone => ⟨p.fails, .inl ⟨(h hone).1, rfl⟩, (h hone).2⟩

theorem TxFails.mono {Y Z : Err → Prop} {e : Err} (hYZ : ∀ e, Y e → Z e)
    (h : TxFails ok v p Y e w l) : TxFails ok v p Z e w l :=
  fun hone => (h hone).imp fun _ hp => hp.imp_left (Or.imp_right (And.imp_left (hYZ e)))

theorem TxFails.fails {e : Err} (h : TxFails ok v p (fun _ => False) e w l) :
    Fails ok p p.fails (· = v) e w l := by
  intro hone
  obtain ⟨p', hs | ⟨hz, -⟩, ha⟩ := h hone
  · exact ⟨hs.1, v, rfl, hs.2 ▸ ha⟩
  · exact hz.elim

theorem At.own {t : Tx} (h : At (some t) v p w l) : ownTx (w, l) = some t := by
  have hin := h.inTx
  simp only [Option.isSome_some] at hin
  simp [ownTx, hin, h.writer]

theorem At.rolledBack {t : Tx} (h : At (some t) v p w l) :
    At none v p w.rollback (l.rolledBack t) :=
  ⟨rfl, rfl, h.pool, h.phase⟩

theorem At.own_none (h : At none v p w l) : ownTx (w, l) = none := by
  simp [ownTx, h.inTx]

/-- The open transaction in another state. -/
theorem At.setTx {t : Tx} (h : At (some t) v p w l) (t' : Tx) :
    At (some t') v p { w with writer := some t' } l :=
  ⟨h.inTx, rfl, h.pool, h.phase⟩

/-- From a body to its transaction; `X` says what the body leaves in it. -/
theorem alone_transaction {X : α → Tx → Prop} {Z : Err → Prop} {body : P α}
    (hbody : ∀ w l, At (some ⟨v.db, [], false, []⟩) v p w l →
      Safe sem ok alone (eligible ok)
        (post (fun a w l => ∃ t, X a t ∧ At (some t) v p w l) (BodyFails ok v p Z)) body w l)
    (h : At none v p w l) :
    Safe sem ok alone (eligible ok)
      (post (fun a w l => ∃ t, X a t ∧ At none { v with db := t.copy } p w l) (TxFails ok v p Z))
      (transaction body) w l := by
  have hdb : w.db = v.db := congrArg Pool.db h.pool
  refine safe_transaction
    (B := post (fun a w l => ∃ t, X a t ∧ At (some t) v p w l) (BodyFails ok v p Z)) isRely_alone
    (fun w l => ⟨fun _ => can_of .ok rfl rfl, fun _ => ?_⟩) (stable_alone _) (stable_alone _)
    h.inTx ?_ ?_ ?_ ?_
  · refine can_of .ok rfl ?_
    cases htx : ownTx (w, l) <;> simp [respond, htx]
  · rintro _ rfl
    refine ⟨fun _ => can_of .ok rfl (by simp [respond, h.writer]), fun msg done hok hone => ?_⟩
    refine ⟨p.fails, .inl ⟨hone.phase h hok (by simp [Choice.result]), rfl⟩, ?_⟩
    exact h.next (Phase.next_raised rfl p)
  · rintro _ rfl -
    refine hbody _ _ ⟨rfl, by rw [World.begin__writer, hdb], h.pool, ?_⟩
    rw [phase_note, Phase.next_ok rfl]
    exact h.phase
  · rintro a w l ⟨t, hx, ha⟩
    have hpool := Pool.mk.inj ha.pool
    have hcalm : ∀ {msg gone left}, ok (.sqlFail msg gone left) .commit (w, l) → OneFault ok →
        p.isFailed = false :=
      fun hok hone => hone.phase ha hok (by simp [Choice.result])
    refine ⟨t, ha.own, fun _ => can_of .ok rfl (by simp [respond, ha.own]),
      ⟨t, hx, rfl, rfl, ?_, ?_⟩,
      fun msg left hok hone => ⟨p.fails, .inl ⟨hcalm hok hone, rfl⟩, ?_⟩, ?_⟩
    · rw [World.pool, ← hpool.2.1, ← hpool.2.2]
      rfl
    · rw [phase_note, Phase.next_ok rfl]
      exact ha.phase
    · exact ha.rolledBack.next (Phase.next_raised rfl p)
    · rintro msg left _ hok rfl
      refine ⟨t, ha.own, fun hone => ⟨p.fails, .inl ⟨hcalm hok hone, rfl⟩, ?_⟩⟩
      have hr : At (some t) v p.fails w (l.note [⟨.commit, .raised⟩]) :=
        ha.next (Phase.next_raised rfl p)
      exact hr.rolledBack.next (Phase.next_ok rfl _)
  · intro e w l hb
    unfold RollsBack
    cases htx : ownTx (w, l) with
    | some t =>
      intro hone
      obtain ⟨tx, p', hs, ha⟩ := hb hone
      cases tx with
      | none =>
        rw [ha.own_none] at htx
        simp at htx
      | some t' =>
        rw [ha.own] at htx
        obtain rfl := Option.some.inj htx
        refine ⟨p', hs.imp_right fun hz => ⟨hz.1.2, hz.2⟩, ?_⟩
        exact ha.rolledBack.next (Phase.next_ok rfl p')
    | none =>
      intro e' hone
      obtain ⟨tx, p', hs, ha⟩ := hb hone
      cases tx with
      | none =>
        refine ⟨p', .inl (hs.resolve_right fun hz => by simp at hz), ?_⟩
        exact ha.next (Phase.next_ok rfl p')
      | some t' =>
        rw [ha.own] at htx
        simp at htx

/-- What some inputs lead to. -/
def Yields (s : Sql α) (db : DB) (r : Except Err α) (db' : DB) : Prop :=
  ∃ inp : Inputs, (∀ v ∈ inp.tokens, isTokenHex v = true) ∧ match r with
    | .ok a => s db inp = .ok a db' ⟨[], []⟩
    | .error e => s db inp = .error e db' ⟨[], []⟩

/-- Statements and a COMMIT. -/
theorem alone_statements {s : Sql α} (hfed : Sql.Fed s v.db) (h : At none v p w l) :
    Safe sem ok alone (eligible ok)
      (post (fun a w l => ∃ db', Yields s v.db (.ok a) db' ∧ At none { v with db := db' } p w l)
      (TxFails ok v p fun e => ∃ db', Yields s v.db (.error e) db')) (transaction (sql s)) w l := by
  refine (alone_transaction (X := fun a t => Yields s v.db (.ok a) t.copy)
    (Z := fun e => ∃ db', Yields s v.db (.error e) db') (fun w l h => ?_) h).mono ?_
  · refine Safe.callStable (stable_alone _) ?_
    rintro _ rfl
    refine ⟨fun _ => ?_, fun r w₂ l₂ hn => ?_⟩
    · obtain ⟨inp, hhex, ⟨a, db', hs⟩ | ⟨e, db', hs⟩⟩ := hfed
      · exact can_of (.inputs inp) rfl
          (by simpa [respond, h.own, runSql, hs, Inputs.empty] using hhex)
      · exact can_of (.inputs inp) rfl
          (by simpa [respond, h.own, runSql, hs, Inputs.empty] using hhex)
    · rcases next_sql h.own hn with ⟨inp, db', -, hhex, rfl, rfl, ⟨a, hm, rfl⟩ | ⟨e, hm, rfl⟩⟩ |
          ⟨msg, gone, left, hok, rfl, hg⟩
      · exact ⟨_, ⟨inp, by simpa using hhex, hm⟩, (h.setTx _).next (Phase.next_ok rfl p)⟩
      · exact fun _ => ⟨_, p, .inr ⟨⟨rfl, db', inp, by simpa using hhex, hm⟩, rfl⟩,
          (h.setTx _).next (Phase.next_ok rfl p)⟩
      · intro hone
        have hcalm := hone.phase h hok (by simp [Choice.result])
        rcases hg with ⟨-, rfl, rfl⟩ | ⟨-, rfl, rfl⟩
        · exact ⟨none, p.fails, .inl ⟨hcalm, rfl⟩, h.rolledBack.next (Phase.next_raised rfl p)⟩
        · exact ⟨_, p.fails, .inl ⟨hcalm, rfl⟩, (h.setTx _).next (Phase.next_raised rfl p)⟩
  · rintro (e | a) w l hq
    · exact hq
    · obtain ⟨t, hr, ha⟩ := hq
      exact ⟨t.copy, hr, ha⟩

/-! ## The sync -/

/-- The sync reads the database, whose ports and shards are in range, and replaces the table. -/
theorem alone_sync (hinv : Inv v.db) (h : At tx v p w l) :
    Safe sem ok alone (eligible ok) (post (fun _ => At tx v p) (BodyFails ok v p fun _ => False))
      syncFirewall w l := by
  have hdb : ∀ {w l}, At tx v p w l → w.db = v.db := fun h => congrArg Pool.db h.pool
  unfold syncFirewall
  simp only [Prog.bind_eq]
  refine alone_seq (alone_look (b := allPorts w.db) (f := .system) rfl rfl (fun _ => rfl) h)
    (fun _ _ _ => Broke.bodyFails) ?_
  rintro _ w₁ l₁ ⟨rfl, h₁⟩
  refine alone_seq (alone_look (b := blockedPorts w₁.db) (f := .system) rfl rfl (fun _ => rfl) h₁)
    (fun _ _ _ => Broke.bodyFails) ?_
  rintro _ w₂ l₂ ⟨rfl, h₂⟩
  refine alone_seq (alone_look (b := allShards w₂.db) (f := .system) rfl rfl (fun _ => rfl) h₂)
    (fun _ _ _ => Broke.bodyFails) ?_
  rintro _ w₃ l₃ ⟨rfl, h₃⟩
  have hports : (allPorts w.db).all portInRange = true := by rw [hdb h]; exact hinv.ports_inRange
  have hshards : (allShards w₂.db).all shardInRange = true := by
    rw [hdb h₂]; exact hinv.shards_inRange
  simp only [hports, hshards, not_true, if_false]
  refine alone_seq (alone_look (b := w₃.blocked) (f := .system) rfl rfl (fun _ => rfl) h₃)
    (fun _ _ _ => Broke.bodyFails) ?_
  rintro _ w₄ l₄ ⟨rfl, h₄⟩
  -- the replacement
  refine Safe.callStable (stable_alone _) ?_
  rintro _ rfl
  have hrep : ∀ i ps bs, At tx v p (w₄.replace i ps bs) l₄ :=
    fun _ _ _ => ⟨h₄.inTx, h₄.writer, h₄.pool, h₄.phase⟩
  refine ⟨fun _ => can_of .ok rfl rfl, fun r w₅ l₅ hn => ?_⟩
  rcases next_ctlReplace hn with ⟨-, rfl, rfl, rfl⟩ | ⟨msg, done, hok, rfl, rfl, rfl⟩
  · have hown : At tx v p (w₄.replace l₄.inTx (allPorts w.db) (blockedPorts w₁.db)) l₄.replaced :=
      ⟨h₄.inTx, h₄.writer, h₄.pool, h₄.phase⟩
    exact hown.next (Phase.next_ok rfl p)
  · intro hone
    refine ⟨tx, p.fails, .inl ⟨hone.phase h₄ hok (by simp [Choice.result]), rfl⟩, ?_⟩
    cases done with
    | false => exact h₄.next (Phase.next_raised rfl p)
    | true => exact (hrep _ _ _).next (Phase.next_raised rfl p)

/-- `_sync_firewall` -/
theorem alone_poolSync (hinv : Inv v.db) (h : At none v p w l) :
    Safe sem ok alone (eligible ok) (post (fun _ => At none v p) (Fails ok p p.fails (· = v)))
      poolSync w l := by
  refine (alone_transaction (X := fun _ t => t.copy = v.db) (Z := fun _ => False)
    (fun w l h => ?_) h).mono ?_
  · refine (alone_sync hinv h).mono ?_
    rintro (e | a) w l hq
    · exact hq
    · exact ⟨_, rfl, hq⟩
  · rintro (e | a) w l hq
    · exact TxFails.fails (e := e) hq
    · obtain ⟨t, ht, ha⟩ := hq
      rw [ht] at ha
      exact ha

end Rules

end WebProxyPanel
