import WebProxyPanel.Commits
import WebProxyPanel.Outer
/-!
# What every process guarantees, and relies on

* `Rely` — what the other processes cannot do: touch a transaction of this process, or, while it
  holds the pool lock, files, units, and more of the pool than a user operation may.
* `guard` — what a process promises before each of its actions.
* `next_*` — one lemma an action: everything it can do.

`Mode.solo` is for runs of one process: nothing happens between its steps.
-/

namespace WebProxyPanel
open Effects

/-- Runs of one process, or of many; the devices, by id and user, whose slots the operation may
take; and whether it may open ports. -/
structure Mode where
  solo : Bool
  moves : Int → Int → Prop
  opens : Bool

def WorldOk (w : World) : Prop := Inv w.db ∧ FilesOk w.db w.files

structure Rely (l : Own) (w w' : World) : Prop where
  ok : WorldOk w → WorldOk w'
  tx : l.inTx = true → w'.db = w.db ∧ w'.writer = w.writer
  lock : l.locked = true → w'.files = w.files ∧ w'.units = w.units ∧ PoolFrame w.db w'.db

theorem Rely.refl (l : Own) (w : World) : Rely l w w :=
  ⟨id, fun _ => ⟨rfl, rfl⟩, fun _ => ⟨rfl, rfl, .refl _⟩⟩

theorem Rely.trans {l : Own} {w₁ w₂ w₃ : World} (h : Rely l w₁ w₂) (h' : Rely l w₂ w₃) :
    Rely l w₁ w₃ where
  ok hw := h'.ok (h.ok hw)
  tx hl := ⟨(h'.tx hl).1.trans (h.tx hl).1, (h'.tx hl).2.trans (h.tx hl).2⟩
  lock hl := by
    obtain ⟨h1, h2, h3⟩ := h.lock hl
    obtain ⟨h4, h5, h6⟩ := h'.lock hl
    exact ⟨h4.trans h1, h5.trans h2, h3.trans h6⟩

def others (m : Mode) (l : Own) (w w' : World) : Prop := (m.solo = true → w' = w) ∧ Rely l w w'

theorem isRely_others (m : Mode) : IsRely (others m) where
  refl l w := ⟨fun _ => rfl, .refl l w⟩
  trans h h' := ⟨fun hs => (h'.1 hs).trans (h.1 hs), h.2.trans h'.2⟩

/-- The port is that of a slot on an active shard. -/
def OnActivePort (db : DB) (p : Int) : Prop := ∃ s ∈ db.slots, OnActive db s ∧ s.port = p

def guard (m : Mode) (w : World) (l : Own) {β : Type} : Action β → Prop
  | .beginImmediate => l.inTx = false
  | .commit => ∃ tx, ownTx (w, l) = some tx ∧ CommitOk m.moves l w tx
  | .sql s =>
    l.inTx = true ∧ ∀ tx, w.writer = some tx →
      s.wp (fun v => isTokenHex v = true) (fun _ _ => True) tx.copy
  | .fwCall call => l.inTx = true ∧ l.locked = false ∧ (call.opens ≠ [] → m.opens = true) ∧
      ∀ p ∈ call.opens, OnActivePort w.db p
  | .ctlReplace ports blocked =>
    (l.inTx = true → l.locked = true) ∧ (l.inTx = true ∨ m.solo = true →
      ports = allPorts w.db ∧ blocked = blockedPorts w.db ∧ ∀ tx, ownTx (w, l) = some tx →
        tx.issued = [])
  | .writeFile p d => l.locked = true ∧ PathOk w.db p (some d)
  | .removeFile p => l.locked = true ∧ PathOk w.db p none
  | .enableShard _ | .disableShard _ => l.locked = true
  | .lock => l.locked = false ∧ l.inTx = false
  | .unlock => l.locked = true ∧ l.inTx = false
  | _ => True

/-! ## Everything an action can do -/

section Next
variable {ok : Allow Action Choice State} {w w₂ : World} {l l₂ : Own}

theorem Own.note_nil (l : Own) : l.note [] = l := by simp [Own.note]

theorem entries_eq {c : Choice} {β : Type} {a : Action β} {call : Call}
    (hcall : a.call? = some call) : entries c a = [⟨call, c.result⟩] := by
  rw [entries, hcall]
  rfl

theorem next_inTransaction {r : Except Err Bool}
    (h : sem.Next ok (w, l) .inTransaction r (w₂, l₂)) : r = .ok l.inTx ∧ w₂ = w ∧ l₂ = l := by
  obtain ⟨c, l', -, hr, rfl⟩ := next_respond h
  cases c <;> simp [respond] at hr
  obtain ⟨rfl, rfl, rfl⟩ := hr
  exact ⟨rfl, rfl, Own.note_nil l⟩

theorem next_firewallCalls {r : Except Err Nat} (h : sem.Next ok (w, l) .firewallCalls r (w₂, l₂)) :
    r = .ok l.firewallCalls ∧ w₂ = w ∧ l₂ = l := by
  obtain ⟨c, l', -, hr, rfl⟩ := next_respond h
  cases c <;> simp [respond] at hr
  obtain ⟨rfl, rfl, rfl⟩ := hr
  exact ⟨rfl, rfl, Own.note_nil l⟩

theorem next_now {r : Except Err Int} (h : sem.Next ok (w, l) .now r (w₂, l₂)) :
    (∃ t, r = .ok t) ∧ w₂ = w ∧ l₂ = l.note [⟨.now, .ok⟩] := by
  obtain ⟨c, l', -, hr, rfl⟩ := next_respond h
  cases c <;> simp [respond] at hr
  obtain ⟨rfl, rfl, rfl⟩ := hr
  exact ⟨⟨_, rfl⟩, rfl, rfl⟩

/-- The answers to an action that ends, as `done` says, or fails. -/
def attempt {β : Type} (done : Option (Except Err β × State))
    (failed : String → Bool → Except Err β × State) :
    Choice → Option (Except Err β × State)
  | .ok => done
  | .fail msg b => some (failed msg b)
  | _ => none

theorem next_attempt {β : Type} {a : Action β} {call : Call} (hcall : a.call? = some call)
    (done : Option (Except Err β × State)) (failed : String → Bool → Except Err β × State)
    (ha : ∀ c, respond c a (w, l) = attempt done failed c) {r : Except Err β}
    (h : sem.Next ok (w, l) a r (w₂, l₂)) :
    (∃ l', ok .ok a (w, l) ∧ done = some (r, (w₂, l')) ∧ l₂ = l'.note [⟨call, .ok⟩]) ∨
      ∃ msg b l', ok (.fail msg b) a (w, l) ∧ failed msg b = (r, (w₂, l')) ∧
        l₂ = l'.note [⟨call, .raised⟩] := by
  obtain ⟨c, l', hc, hr, rfl⟩ := next_respond h
  rw [ha] at hr
  rw [entries_eq hcall]
  cases c with
  | ok => exact .inl ⟨l', hc, hr, rfl⟩
  | fail msg b => exact .inr ⟨msg, b, l', hc, Option.some.inj hr, rfl⟩
  | inputs inp => simp [attempt] at hr
  | time t => simp [attempt] at hr
  | answer b msg => simp [attempt] at hr
  | sqlFail msg gone left => simp [attempt] at hr

theorem next_begin {r : Except Err Unit} (h : sem.Next ok (w, l) .beginImmediate r (w₂, l₂)) :
    (r = .ok () ∧ w.writer = none ∧ w₂ = w.begin_ ∧
      l₂ = { l with inTx := true }.note [⟨.begin_, .ok⟩]) ∨
      ∃ msg done, ok (.fail msg done) .beginImmediate (w, l) ∧ r = .error (.sqlite msg) ∧ w₂ = w ∧
        l₂ = l.note [⟨.begin_, .raised⟩] := by
  rcases next_attempt rfl
      (w.writer.elim (some (.ok (), (w.begin_, { l with inTx := true }))) fun _ => none)
    (fun msg _ => (.error (.sqlite msg), (w, l)))
    (fun c => by cases c <;> cases hw : w.writer <;> simp [respond, attempt, hw]) h with
    ⟨l', -, hr, rfl⟩ | ⟨msg, b, l', hc, hr, rfl⟩
  · cases hw : w.writer with
    | none =>
      rw [hw] at hr
      simp only [Option.elim_none, Option.some.injEq, Prod.mk.injEq] at hr
      obtain ⟨rfl, rfl, rfl⟩ := hr
      exact .inl ⟨rfl, rfl, rfl, rfl⟩
    | some tx =>
      rw [hw] at hr
      simp at hr
  · simp only [Prod.mk.injEq] at hr
    obtain ⟨rfl, rfl, rfl⟩ := hr
    exact .inr ⟨msg, b, hc, rfl, rfl, rfl⟩

theorem next_commit {tx : Tx} (htx : ownTx (w, l) = some tx) {r : Except Err Unit}
    (h : sem.Next ok (w, l) .commit r (w₂, l₂)) :
    (ok .ok .commit (w, l) ∧ r = .ok () ∧ w₂ = w.commit tx ∧
      l₂ = { l with inTx := false }.note [⟨.commit, .ok⟩]) ∨
      ∃ msg gone left, ok (.sqlFail msg gone left) .commit (w, l) ∧ r = .error (.sqlite msg) ∧
        ((gone = true ∧ w₂ = w.rollback ∧ l₂ = (l.rolledBack tx).note [⟨.commit, .raised⟩]) ∨
          (gone = false ∧ w₂ = w ∧ l₂ = l.note [⟨.commit, .raised⟩])) := by
  obtain ⟨c, l', hc, hr, rfl⟩ := next_respond h
  cases c with
  | ok =>
    simp only [respond, htx, Option.some.injEq, Prod.mk.injEq] at hr
    obtain ⟨rfl, rfl, rfl⟩ := hr
    exact .inl ⟨hc, rfl, rfl, rfl⟩
  | sqlFail msg gone left =>
    refine .inr ⟨msg, gone, left, hc, ?_⟩
    cases gone with
    | true =>
      simp only [respond, htx, if_true, Option.some.injEq, Prod.mk.injEq] at hr
      obtain ⟨rfl, rfl, rfl⟩ := hr
      exact ⟨rfl, .inl ⟨rfl, rfl, rfl⟩⟩
    | false =>
      simp only [respond, htx, Bool.false_eq_true, if_false, Option.some.injEq, Prod.mk.injEq] at hr
      obtain ⟨rfl, rfl, rfl⟩ := hr
      exact ⟨rfl, .inr ⟨rfl, rfl, rfl⟩⟩
  | fail msg done => simp [respond, htx] at hr
  | inputs inp => simp [respond, htx] at hr
  | time t => simp [respond, htx] at hr
  | answer b msg => simp [respond, htx] at hr

theorem next_rollback {r : Except Err Unit} (h : sem.Next ok (w, l) .rollback r (w₂, l₂)) :
    (∃ tx, ownTx (w, l) = some tx ∧ r = .ok () ∧ w₂ = w.rollback ∧
      l₂ = (l.rolledBack tx).note [⟨.rollback, .ok⟩]) ∨
    (ownTx (w, l) = none ∧ (∃ msg, r = .error (.sqlite msg)) ∧ w₂ = w ∧
      l₂ = l.note [⟨.rollback, .ok⟩]) := by
  obtain ⟨c, l', -, hr, rfl⟩ := next_respond h
  cases htx : ownTx (w, l) with
  | some tx =>
    cases c <;> simp [respond, htx] at hr
    obtain ⟨rfl, rfl, rfl⟩ := hr
    exact .inl ⟨tx, rfl, rfl, rfl, rfl⟩
  | none =>
    cases c <;> simp [respond, htx] at hr
    obtain ⟨rfl, rfl, rfl⟩ := hr
    exact .inr ⟨rfl, ⟨_, rfl⟩, rfl, rfl⟩

/-- The transaction after its statements. -/
def Tx.ran (tx : Tx) (copy : DB) (drawn : List String) : Tx :=
  { tx with copy := copy, drawn := tx.drawn ++ drawn }

/-- Statements are for an open transaction. -/
theorem next_sql_open {α : Type} {m : Sql α} {r : Except Err α}
    (h : sem.Next ok (w, l) (.sql m) r (w₂, l₂)) :
    ∃ tx, ownTx (w, l) = some tx := by
  obtain ⟨c, l', -, hr, -⟩ := next_respond h
  cases htx : ownTx (w, l) with
  | none => simp [respond, htx] at hr
  | some tx => exact ⟨tx, rfl⟩

theorem next_sql {α : Type} {m : Sql α} {tx : Tx} (htx : ownTx (w, l) = some tx) {r : Except Err α}
    (h : sem.Next ok (w, l) (.sql m) r (w₂, l₂)) :
    (∃ inp db', ok (.inputs inp) (.sql m) (w, l) ∧ inp.tokens.all isTokenHex = true ∧
      w₂ = { w with writer := some (tx.ran db' inp.tokens) } ∧ l₂ = l.note [⟨.statements, .ok⟩] ∧
      ((∃ a, m tx.copy inp = .ok a db' ⟨[], []⟩ ∧ r = .ok a) ∨
        ∃ e, m tx.copy inp = .error e db' ⟨[], []⟩ ∧ r = .error e)) ∨
    ∃ msg gone left, ok (.sqlFail msg gone left) (.sql m) (w, l) ∧ r = .error (.sqlite msg) ∧
      ((gone = true ∧ w₂ = w.rollback ∧ l₂ = (l.rolledBack tx).note [⟨.statements, .raised⟩]) ∨
        (gone = false ∧ w₂ = { w with writer := some { tx with copy := left, failed := true } } ∧
          l₂ = l.note [⟨.statements, .raised⟩])) := by
  obtain ⟨c, l', hc, hr, rfl⟩ := next_respond h
  rw [respond, htx] at hr
  simp only at hr
  cases c with
  | inputs inp =>
    unfold runSql at hr
    simp only at hr
    by_cases hhex : inp.tokens.all isTokenHex = true
    · rw [if_neg (not_not.2 hhex)] at hr
      refine .inl ⟨inp, ?_⟩
      -- the statements must have taken exactly what was supplied
      rcases hm : m tx.copy inp with ⟨a, db', ts, vs⟩ | ⟨e, db', ts, vs⟩ | _
      · rw [hm] at hr
        cases ts <;> cases vs <;> simp at hr
        obtain ⟨rfl, rfl, rfl⟩ := hr
        exact ⟨db', hc, hhex, rfl, rfl, .inl ⟨a, rfl, rfl⟩⟩
      · rw [hm] at hr
        cases ts <;> cases vs <;> simp at hr
        obtain ⟨rfl, rfl, rfl⟩ := hr
        exact ⟨db', hc, hhex, rfl, rfl, .inr ⟨e, rfl, rfl⟩⟩
      · rw [hm] at hr
        simp at hr
    · rw [if_pos hhex] at hr
      simp at hr
  | sqlFail msg gone left =>
    refine .inr ⟨msg, gone, left, hc, ?_⟩
    cases gone with
    | true =>
      simp only [runSql, if_true, Option.some.injEq, Prod.mk.injEq] at hr
      obtain ⟨rfl, rfl, rfl⟩ := hr
      exact ⟨rfl, .inl ⟨rfl, rfl, rfl⟩⟩
    | false =>
      simp only [runSql, Bool.false_eq_true, if_false, Option.some.injEq, Prod.mk.injEq] at hr
      obtain ⟨rfl, rfl, rfl⟩ := hr
      exact ⟨rfl, .inr ⟨rfl, rfl, rfl⟩⟩
  | ok => simp [runSql] at hr
  | fail msg done => simp [runSql] at hr
  | time t => simp [runSql] at hr
  | answer b msg => simp [runSql] at hr

theorem next_fwCall {call : FwCall} {r : Except Err Unit}
    (h : sem.Next ok (w, l) (.fwCall call) r (w₂, l₂)) :
    (r = .ok () ∧ w₂ = w.fwCall call false true ∧ l₂ = (l.called call).note [⟨.fwCall call, .ok⟩]) ∨
      ∃ msg done, ok (.fail msg done) (.fwCall call) (w, l) ∧ r = .error (.system msg) ∧
        w₂ = w.fwCall call true done ∧ l₂ = (l.called call).note [⟨.fwCall call, .raised⟩] := by
  rcases next_attempt rfl (some (.ok (), (w.fwCall call false true, l.called call)))
    (fun msg done => (.error (.system msg), (w.fwCall call true done, l.called call)))
    (fun c => by cases c <;> rfl) h with
    ⟨l', -, hr, rfl⟩ | ⟨msg, done, l', hc, hr, rfl⟩
  · simp only [Option.some.injEq, Prod.mk.injEq] at hr
    obtain ⟨rfl, rfl, rfl⟩ := hr
    exact .inl ⟨rfl, rfl, rfl⟩
  · simp only [Prod.mk.injEq] at hr
    obtain ⟨rfl, rfl, rfl⟩ := hr
    exact .inr ⟨msg, done, hc, rfl, rfl, rfl⟩

theorem next_ctlReplace {ports blocked : List Int} {r : Except Err Unit}
    (h : sem.Next ok (w, l) (.ctlReplace ports blocked) r (w₂, l₂)) :
    (ok .ok (.ctlReplace ports blocked) (w, l) ∧ r = .ok () ∧ w₂ = w.replace l.inTx ports blocked ∧
      l₂ = l.replaced.note [⟨.ctlReplace, .ok⟩]) ∨
      ∃ msg done, ok (.fail msg done) (.ctlReplace ports blocked) (w, l) ∧
        r = .error (.system msg) ∧
        w₂ = (if done then w.replace l.inTx ports blocked else
          w) ∧ l₂ = l.note [⟨.ctlReplace, .raised⟩] := by
  rcases next_attempt rfl (some (.ok (), (w.replace l.inTx ports blocked, l.replaced)))
    (fun msg done => (.error (.system msg),
      (if done then w.replace l.inTx ports blocked else w, l))) (fun c => by cases c <;> rfl) h with
    ⟨l', hc, hr, rfl⟩ | ⟨msg, done, l', hc, hr, rfl⟩
  · simp only [Option.some.injEq, Prod.mk.injEq] at hr
    obtain ⟨rfl, rfl, rfl⟩ := hr
    exact .inl ⟨hc, rfl, rfl, rfl⟩
  · simp only [Prod.mk.injEq] at hr
    obtain ⟨rfl, rfl, rfl⟩ := hr
    exact .inr ⟨msg, done, hc, rfl, rfl, rfl⟩

/-- The actions that only read. -/
theorem next_read {β : Type} {a : Action β} {call : Call} {b : β} {f : String → Err}
    (hcall : a.call? = some call) (ha : ∀ c, respond c a (w, l) = read c b f (w, l))
    {r : Except Err β} (h : sem.Next ok (w, l) a r (w₂, l₂)) :
    (r = .ok b ∧ w₂ = w ∧ l₂ = l.note [⟨call, .ok⟩]) ∨
      ∃ msg done, ok (.fail msg done) a (w, l) ∧ r = .error (f msg) ∧ w₂ = w ∧
        l₂ = l.note [⟨call, .raised⟩] := by
  rcases next_attempt hcall (some (.ok b, (w, l))) (fun msg _ => (.error (f msg), (w, l)))
    (fun c => (ha c).trans (by cases c <;> rfl)) h with ⟨l', -, hr, rfl⟩ |
    ⟨msg, done, l', hc, hr, rfl⟩
  · simp only [Option.some.injEq, Prod.mk.injEq] at hr
    obtain ⟨rfl, rfl, rfl⟩ := hr
    exact .inl ⟨rfl, rfl, rfl⟩
  · simp only [Prod.mk.injEq] at hr
    obtain ⟨rfl, rfl, rfl⟩ := hr
    exact .inr ⟨msg, done, hc, rfl, rfl, rfl⟩

/-- The actions that change the world and answer nothing. -/
theorem next_plain {a : Action Unit} {call : Call} {effect : World → World}
    (hcall : a.call? = some call) (ha : ∀ c, respond c a (w, l) = plain c effect (w, l))
    {r : Except Err Unit} (h : sem.Next ok (w, l) a r (w₂, l₂)) :
    (r = .ok () ∧ w₂ = effect w ∧ l₂ = l.note [⟨call, .ok⟩]) ∨
      ∃ msg done, ok (.fail msg done) a (w, l) ∧ r = .error (.system msg) ∧
        w₂ = (if done then effect w else w) ∧
        l₂ = l.note [⟨call, .raised⟩] := by
  rcases next_attempt hcall (some (.ok (), (effect w, l)))
      (fun msg done => (.error (.system msg), (if done then effect w else w, l)))
    (fun c => (ha c).trans (by cases c <;> rfl)) h with ⟨l', -, hr, rfl⟩ |
    ⟨msg, done, l', hc, hr, rfl⟩
  · simp only [Option.some.injEq, Prod.mk.injEq] at hr
    obtain ⟨rfl, rfl, rfl⟩ := hr
    exact .inl ⟨rfl, rfl, rfl⟩
  · simp only [Prod.mk.injEq] at hr
    obtain ⟨rfl, rfl, rfl⟩ := hr
    exact .inr ⟨msg, done, hc, rfl, rfl, rfl⟩

/-- The actions that ask for a yes or a no. -/
theorem next_answer {β : Type} {a : Action β} {call : Call} (hcall : a.call? = some call)
    (value : Bool → String → β)
    (hanswer : ∀ b msg, respond (.answer b msg) a (w, l) = some (.ok (value b msg), (w, l)))
    (hfail : ∀ msg done, respond (.fail msg done) a (w, l) = some (.error (.system msg), (w, l)))
    (hno : ∀ c, (∀ b msg, c ≠ .answer b msg) → (∀ msg done, c ≠ .fail msg done) →
      respond c a (w, l) = none)
    {r : Except Err β} (h : sem.Next ok (w, l) a r (w₂, l₂)) :
    w₂ = w ∧ ((∃ msg, r = .ok (value true msg) ∧ l₂ = l.note [⟨call, .ok⟩]) ∨
      (∃ msg, ok (.answer false msg) a (w, l) ∧ r = .ok (value false msg) ∧
        l₂ = l.note [⟨call, .no⟩]) ∨
      ∃ msg done, ok (.fail msg done) a (w, l) ∧ r = .error (.system msg) ∧
        l₂ = l.note [⟨call, .raised⟩]) := by
  obtain ⟨c, l', hc, hr, rfl⟩ := next_respond h
  rw [entries_eq hcall]
  by_cases hyes : ∃ b msg, c = .answer b msg
  · obtain ⟨b, msg, rfl⟩ := hyes
    rw [hanswer] at hr
    simp only [Option.some.injEq, Prod.mk.injEq] at hr
    obtain ⟨rfl, rfl, rfl⟩ := hr
    cases b with
    | true => exact ⟨rfl, .inl ⟨msg, rfl, rfl⟩⟩
    | false => exact ⟨rfl, .inr (.inl ⟨msg, hc, rfl, rfl⟩)⟩
  · by_cases hraised : ∃ msg done, c = .fail msg done
    · obtain ⟨msg, done, rfl⟩ := hraised
      rw [hfail] at hr
      simp only [Option.some.injEq, Prod.mk.injEq] at hr
      obtain ⟨rfl, rfl, rfl⟩ := hr
      exact ⟨rfl, .inr (.inr ⟨msg, done, hc, rfl, rfl⟩)⟩
    · rw [hno c (fun b msg hb => hyes ⟨b, msg, hb⟩) fun msg done hd => hraised ⟨msg, done, hd⟩]
        at hr
      simp at hr

theorem next_relayCheck {p q : Path} {r : Except Err (Bool × String)}
    (h : sem.Next ok (w, l) (.relayCheck p q) r (w₂, l₂)) :
    w₂ = w ∧ ((∃ msg, r = .ok (true, msg) ∧ l₂ = l.note [⟨.relayCheck, .ok⟩]) ∨
      (∃ msg, ok (.answer false msg) (.relayCheck p q) (w, l) ∧ r = .ok (false, msg) ∧
        l₂ = l.note [⟨.relayCheck, .no⟩]) ∨
      ∃ msg done, ok (.fail msg done) (.relayCheck p q) (w, l) ∧ r = .error (.system msg) ∧
        l₂ = l.note [⟨.relayCheck, .raised⟩]) := by
  refine next_answer rfl (fun b msg => (b, msg)) (fun _ _ => rfl) (fun _ _ => rfl)
    (fun c hyes hraised => ?_) h
  cases c with
  | answer b msg => exact absurd rfl (hyes b msg)
  | fail msg done => exact absurd rfl (hraised msg done)
  | _ => rfl

theorem next_waitHealthy {ks : List Int} {r : Except Err Bool}
    (h : sem.Next ok (w, l) (.waitHealthy ks) r (w₂, l₂)) :
    w₂ = w ∧ ((r = .ok true ∧ l₂ = l.note [⟨.waitHealthy ks, .ok⟩]) ∨
      (∃ msg, ok (.answer false msg) (.waitHealthy ks) (w, l) ∧ r = .ok false ∧
        l₂ = l.note [⟨.waitHealthy ks, .no⟩]) ∨
      ∃ msg done, ok (.fail msg done) (.waitHealthy ks) (w, l) ∧ r = .error (.system msg) ∧
        l₂ = l.note [⟨.waitHealthy ks, .raised⟩]) := by
  have hother : ∀ c, (∀ b msg, c ≠ .answer b msg) → (∀ msg done, c ≠ .fail msg done) →
      respond c (.waitHealthy ks) (w, l) = none := by
    intro c hyes hraised
    cases c with
    | answer b msg => exact absurd rfl (hyes b msg)
    | fail msg done => exact absurd rfl (hraised msg done)
    | _ => rfl
  obtain ⟨rfl, hcase⟩ := next_answer rfl (fun b _ => b) (fun _ _ => rfl) (fun _ _ => rfl) hother h
  refine ⟨rfl, hcase.imp_left ?_⟩
  rintro ⟨msg, rfl, rfl⟩
  exact ⟨rfl, rfl⟩

theorem next_lock {r : Except Err Unit} (h : sem.Next ok (w, l) .lock r (w₂, l₂)) :
    (r = .ok () ∧ w.poolLock = false ∧ w₂ = w.setLock true ∧
      l₂ = { l with locked := true, synced := false }.note [⟨.lock, .ok⟩]) ∨
    ∃ msg done, ok (.fail msg done) .lock (w, l) ∧ r = .error (.system msg) ∧ w₂ = w ∧
      l₂ = l.note [⟨.lock, .raised⟩] := by
  rcases next_attempt rfl (if w.poolLock then none else
      some (.ok (), (w.setLock true, { l with locked := true, synced := false })))
    (fun msg _ => (.error (.system msg), (w, l))) (fun c => by cases c <;> rfl) h
    with ⟨l', -, hr, rfl⟩ | ⟨msg, done, l', hc, hr, rfl⟩
  · cases hp : w.poolLock with
    | true =>
      rw [hp] at hr
      simp at hr
    | false =>
      rw [hp] at hr
      simp only [Bool.false_eq_true, if_false, Option.some.injEq, Prod.mk.injEq] at hr
      obtain ⟨rfl, rfl, rfl⟩ := hr
      exact .inl ⟨rfl, rfl, rfl, rfl⟩
  · simp only [Prod.mk.injEq] at hr
    obtain ⟨rfl, rfl, rfl⟩ := hr
    exact .inr ⟨msg, done, hc, rfl, rfl, rfl⟩

theorem next_unlock {r : Except Err Unit} (h : sem.Next ok (w, l) .unlock r (w₂, l₂)) :
    r = .ok () ∧ w₂ = w.setLock false ∧ l₂ = { l with locked := false, synced := false }.note
      [⟨.unlock, .ok⟩] := by
  obtain ⟨c, l', -, hr, rfl⟩ := next_respond h
  cases c <;> simp [respond] at hr
  obtain ⟨rfl, rfl, rfl⟩ := hr
  exact ⟨rfl, rfl, rfl⟩

end Next

end WebProxyPanel
