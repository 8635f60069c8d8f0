import WebProxyPanel.Global
/-!
# Transaction blocks of any depth

| here | there |
| --- | --- |
| `Block` | a body: statements, `with db.transaction(conn)` blocks and Python between them |
| `Block.program` | its run on a connection, nested blocks through `transaction` (db.py:167-184) |
| `Block.eval` | the same statements one after the other on a database, without any transaction |
| `Block.meaning` | what the outermost block is for: the body's effects or nothing, and the first exception |

`transaction_atomic_iff`: `transaction` does what `Block.meaning` says unless a failing statement of
the body makes SQLite roll the transaction back by itself. Then the unconditional ROLLBACK of the
handler fails, and its error takes the place of the body's. After a failed COMMIT the code looks
first.
-/

namespace WebProxyPanel
open Effects

/-! ## Bodies -/

inductive Block : Type → Type 1 where
  | done {α : Type} (a : α) : Block α
  /-- Python raises. -/
  | raise {α : Type} (e : Err) : Block α
  | stmt {α β : Type} (m : Sql β) (k : β → Block α) : Block α
  | nested {α β : Type} (b : Block β) (k : β → Block α) : Block α

variable {α β : Type}

def Block.program : {α : Type} → Block α → P α
  | _, .done a => .ret a
  | _, .raise e => .raise e
  | _, .stmt m k => (sql m).bind fun b => (k b).program
  | _, .nested b k => (transaction b.program).bind fun x => (k x).program

/-- How a body ends. -/
inductive Ending (α : Type) where
  | returned (a : α)
  | raised (e : Err)
  /-- A statement failed, and SQLite rolled the transaction back by itself. -/
  | rolledBack (message : String)

def Ending.outcome : Ending α → Except Err α
  | .returned a => .ok a
  | .raised e => .error e
  | .rolledBack m => .error (.sqlite m)

/-- The transaction is still open. -/
def Ending.stays : Ending α → Bool
  | .rolledBack _ => false
  | _ => true

/-- One statement on a database. -/
def evalSql (m : Sql α) (db : DB) : Choice → Option (Ending α × DB)
  | .inputs inp =>
    if ¬ inp.tokens.all isTokenHex then none
    else match m db inp with
    | .ok a db' ⟨[], []⟩ => some (.returned a, db')
    | .error e db' ⟨[], []⟩ => some (.raised e, db')
    | _ => none
  | .sqlFail msg gone left => some (if gone then .rolledBack msg else .raised (.sqlite msg), left)
  | _ => none

/-- The next part of a body runs if the one before has returned. -/
def andThen (x : Ending β × DB × List Choice)
    (k : β → DB → List Choice → Option (Ending α × DB × List Choice)) :
    Option (Ending α × DB × List Choice) :=
  match x.1 with
  | .returned b => k b x.2.1 x.2.2
  | .raised e => some (.raised e, x.2)
  | .rolledBack m => some (.rolledBack m, x.2)

/-- The body on a database; what is left of the outside's choices. -/
def Block.eval : {α : Type} → Block α → DB → List Choice → Option (Ending α × DB × List Choice)
  | _, .done a, db, cs => some (.returned a, db, cs)
  | _, .raise e, db, cs => some (.raised e, db, cs)
  | _, .stmt m k, db, c :: cs =>
    (evalSql m db c).bind fun x => andThen (x.1, x.2, cs) fun b => (k b).eval
  -- the question whether a transaction is open
  | _, .nested b k, db, .ok :: cs => (b.eval db cs).bind fun x => andThen x fun b => (k b).eval
  | _, .stmt _ _, _, [] | _, .nested _ _, _, _ => none

/-- COMMIT of what a body has done to `db`. -/
def commitOf (a : α) (db db' : DB) : List Choice → Option (Except Err α × DB)
  | [.ok] => some (.ok a, db')
  | .sqlFail msg _ _ :: _ => some (.error (.sqlite msg), db)
  | _ => none

/-- What the caller of the outermost block is to see, and the database after it. A BEGIN that fails
is passed on too. -/
def Block.meaning (b : Block α) (db : DB) : List Choice → Option (Except Err α × DB)
  | _ :: .fail msg _ :: _ => some (.error (.sqlite msg), db)
  | _ :: _ :: cs => (b.eval db cs).bind fun x => match x.1 with
    | .returned a => commitOf a db x.2.1 x.2.2
    | .raised e => some (.error e, db)
    | .rolledBack msg => some (.error (.sqlite msg), db)
  | _ => none

/-! ## A body in its transaction -/

/-- After a body that began in a transaction on `w.db`. -/
structure AfterBody (w : World) (end_ : Ending α) (db : DB) (s' : State) : Prop where
  inTx : s'.2.inTx = end_.stays
  kept : s'.1.db = w.db
  commits : s'.1.commits = w.commits
  copy : end_.stays = true → ∃ tx, s'.1.writer = some tx ∧ tx.copy = db

section Body
variable {w : World} {l : Own} {tx : Tx} {c : Choice} {cs : List Choice} {s' : State}

/-- Whether a transaction is open. -/
theorem perform_inTransaction {r : Except Err Bool}
    (h : sem.perform c .inTransaction (w, l) = some (r, s')) :
    c = .ok ∧ r = .ok l.inTx ∧ s' = (w, l.note []) := by
  obtain ⟨l₁, hr, hl⟩ := perform_respond h
  cases c <;> simp [respond] at hr
  obtain ⟨rfl, hw, rfl⟩ := hr
  exact ⟨rfl, rfl, Prod.ext hw.symm hl⟩

theorem perform_begin {r : Except Err Unit}
    (h : sem.perform c .beginImmediate (w, l) = some (r, s')) :
    (c = .ok ∧ r = .ok () ∧ s' = (w.begin_, { l with inTx := true }.note [⟨.begin_, .ok⟩])) ∨
      ∃ msg done, c = .fail msg done ∧ r = .error (.sqlite msg) ∧
        s' = (w, l.note [⟨.begin_, .raised⟩]) := by
  obtain ⟨w', l'⟩ := s'
  obtain ⟨l₁, hr, rfl⟩ := perform_respond h
  cases c with
  | ok =>
    cases hw : w.writer <;> simp [respond, hw] at hr
    obtain ⟨rfl, rfl, rfl⟩ := hr
    exact .inl ⟨rfl, rfl, rfl⟩
  | fail msg done =>
    simp only [respond, Option.some.injEq, Prod.mk.injEq] at hr
    obtain ⟨rfl, rfl, rfl⟩ := hr
    exact .inr ⟨msg, done, rfl, rfl, rfl⟩
  | _ => simp [respond] at hr

theorem perform_sql {m : Sql α} {r : Except Err α} (hl : l.inTx = true) (hw : w.writer = some tx)
    (h : sem.perform c (.sql m) (w, l) = some (r, s')) :
    ∃ end_ db, evalSql m tx.copy c = some (end_, db) ∧ r = end_.outcome ∧
      AfterBody w end_ db s' := by
  have htx : ownTx (w, l) = some tx := by simp [ownTx, hl, hw]
  obtain ⟨⟨r₁, s₁⟩, hr, he⟩ := Option.map_eq_some_iff.1 h
  simp only [respond, htx] at hr
  cases c with
  | inputs inp =>
    simp only [runSql, evalSql] at hr ⊢
    split at hr
    · simp at hr
    · rename_i hhex
      rw [if_neg hhex]
      generalize m tx.copy inp = res at hr ⊢
      split at hr
      · simp only [Option.some.injEq, Prod.mk.injEq] at hr he
        obtain ⟨rfl, rfl⟩ := hr
        obtain ⟨rfl, rfl⟩ := he
        exact ⟨.returned _, _, rfl, rfl, hl, rfl, rfl, fun _ => ⟨_, rfl, rfl⟩⟩
      · simp only [Option.some.injEq, Prod.mk.injEq] at hr he
        obtain ⟨rfl, rfl⟩ := hr
        obtain ⟨rfl, rfl⟩ := he
        exact ⟨.raised _, _, rfl, rfl, hl, rfl, rfl, fun _ => ⟨_, rfl, rfl⟩⟩
      · simp at hr
  | sqlFail msg gone left =>
    cases gone with
    | true =>
      simp only [runSql, if_true, Option.some.injEq, Prod.mk.injEq] at hr he
      obtain ⟨rfl, rfl⟩ := hr
      obtain ⟨rfl, rfl⟩ := he
      exact ⟨.rolledBack msg, left, rfl, rfl, rfl, rfl, rfl, fun hs => by simp [Ending.stays] at hs⟩
    | false =>
      simp only [runSql, Bool.false_eq_true, if_false, Option.some.injEq, Prod.mk.injEq] at hr he
      obtain ⟨rfl, rfl⟩ := hr
      obtain ⟨rfl, rfl⟩ := he
      exact ⟨.raised (.sqlite msg), left, rfl, rfl, hl, rfl, rfl, fun _ => ⟨_, rfl, rfl⟩⟩
  | _ => simp [runSql] at hr

/-- A complete run of a body is what `eval` says, with the rest of the choices left. -/
def Evaluates (b : Block α) : Prop :=
  ∀ {w : World} {l : Own} {tx : Tx} {cs : List Choice} {out : Except Err α} {s' : State},
    l.inTx = true → w.writer = some tx →
    sem.play anything cs b.program (w, l) = some (.ended out, s') →
      ∃ end_ db, (∀ rest, b.eval tx.copy (cs ++ rest) = some (end_, db, rest)) ∧
      out = end_.outcome ∧ AfterBody w end_ db s'

/-- Past the first part of a body. -/
theorem Evaluates.andThen {k : β → Block α} (hk : ∀ b, Evaluates (k b)) {first : Ending β} {db : DB}
    {s : State} (h : AfterBody w first db s) {out : Except Err α}
    (hp : sem.play anything cs ((Prog.ended first.outcome).bind fun b => (k b).program) s =
      some (.ended out, s')) :
    ∃ end_ db', (∀ rest, WebProxyPanel.andThen (first, db, cs ++ rest) (fun b => (k b).eval) =
      some (end_, db', rest)) ∧
      out = end_.outcome ∧ AfterBody w end_ db' s' := by
  cases first with
  | returned b =>
    obtain ⟨tx, hw, rfl⟩ := h.copy rfl
    obtain ⟨end_, db', hev, hout, hend⟩ := hk b h.inTx hw hp
    exact ⟨end_, db', hev, hout, hend.inTx, hend.kept.trans h.kept,
      hend.commits.trans h.commits, hend.copy⟩
  | raised e =>
    obtain ⟨rfl, rfl, rfl⟩ := Sem.play_ended (r := .error e) hp
    exact ⟨.raised e, db, fun _ => rfl, rfl, h.inTx, h.kept, h.commits, h.copy⟩
  | rolledBack msg =>
    obtain ⟨rfl, rfl, rfl⟩ := Sem.play_ended (r := .error (Err.sqlite msg)) hp
    exact ⟨.rolledBack msg, db, fun _ => rfl, rfl, h.inTx, h.kept, h.commits, h.copy⟩

theorem evaluates (b : Block α) : Evaluates b := by
  induction b with
  | done a =>
    intro w l tx cs out s' hl hw h
    obtain ⟨rfl, rfl, rfl⟩ := Sem.play_ended (r := .ok a) h
    exact ⟨.returned a, tx.copy, fun _ => rfl, rfl, hl, rfl, rfl, fun _ => ⟨tx, hw, rfl⟩⟩
  | raise e =>
    intro w l tx cs out s' hl hw h
    obtain ⟨rfl, rfl, rfl⟩ := Sem.play_ended (r := .error e) h
    exact ⟨.raised e, tx.copy, fun _ => rfl, rfl, hl, rfl, rfl, fun _ => ⟨tx, hw, rfl⟩⟩
  | stmt m k ih =>
    intro w l tx cs out s' hl hw h
    cases cs with
    | nil => cases out <;> simp [Sem.play, Block.program, sql, Prog.call, Prog.ended] at h
    | cons c cs =>
      simp only [Block.program, sql, Prog.call, Prog.act_bind, Sem.play, anything, if_true] at h
      obtain ⟨⟨r, s₁⟩, hp, hr⟩ := Option.bind_eq_some_iff.1 h
      obtain ⟨first, db, heval, rfl, hafter⟩ := perform_sql hl hw hp
      have hr' : sem.play anything cs ((Prog.ended first.outcome).bind fun b => (k b).program) s₁ =
          some (.ended out, s') := by
        rw [← hr]
        cases first <;> rfl
      obtain ⟨end_, db', hev, hout, hend⟩ := Evaluates.andThen (fun b => ih b) hafter hr'
      refine ⟨end_, db', fun rest => ?_, hout, hend⟩
      rw [← hev rest]
      simp [Block.eval, heval]
  | nested b k ihb ihk =>
    intro w l tx cs out s' hl hw h
    cases cs with
    | nil => cases out <;> simp [Sem.play, Block.program, transaction, Prog.call, Prog.ended] at h
    | cons c cs =>
      -- the answer is that a transaction is open
      have hjoins : c = .ok ∧ sem.play anything cs (b.program.bind fun x => (k x).program)
          (w, l.note []) = some (.ended out, s') := by
        simp only [Block.program, transaction, Prog.bind_eq, Prog.call, Prog.act_bind, Sem.play,
          anything, if_true] at h
        obtain ⟨⟨r, s₁⟩, hp, hr⟩ := Option.bind_eq_some_iff.1 h
        obtain ⟨rfl, rfl, rfl⟩ := perform_inTransaction hp
        rw [hl] at hr
        exact ⟨rfl, hr⟩
      obtain ⟨rfl, hrun⟩ := hjoins
      obtain ⟨cs₁, cs₂, r, s₁, rfl, h₁, h₂⟩ := Sem.play_bind hrun
      obtain ⟨first, db, heval, rfl, hafter⟩ := ihb (l := l.note []) hl hw h₁
      obtain ⟨end_, db', hev, hout, hend⟩ := Evaluates.andThen (fun x => ihk x) hafter h₂
      refine ⟨end_, db', fun rest => ?_, hout, hend⟩
      rw [← hev rest]
      simp [Block.eval, heval]

/-! ## The ways out -/

/-- SQLite's answer to a ROLLBACK outside a transaction. -/
def noTransaction : String := "cannot rollback - no transaction is active"

/-- Nothing is committed, and no transaction is left. -/
structure AsBefore (w : World) (s' : State) : Prop where
  idle : s'.2.inTx = false
  kept : s'.1.db = w.db
  commits : s'.1.commits = w.commits

theorem AsBefore.after {end_ : Ending α} {db : DB} {s : State} (h : AsBefore s.1 s')
    (hafter : AfterBody w.begin_ end_ db s) : AsBefore w s' :=
  ⟨h.idle, h.kept.trans hafter.kept, h.commits.trans hafter.commits⟩

theorem perform_rollback {r : Except Err Unit} (hw : l.inTx = true → ∃ tx, w.writer = some tx)
    (h : sem.perform c .rollback (w, l) = some (r, s')) :
    r = (if l.inTx then .ok () else .error (.sqlite noTransaction)) ∧ AsBefore w s' := by
  obtain ⟨w', l'⟩ := s'
  obtain ⟨l₁, hr, rfl⟩ := perform_respond h
  cases hl : l.inTx with
  | true =>
    obtain ⟨tx, hw⟩ := hw hl
    cases c <;> simp [respond, ownTx, hl, hw] at hr
    obtain ⟨rfl, rfl, rfl⟩ := hr
    exact ⟨rfl, rfl, rfl, rfl⟩
  | false =>
    cases c <;> simp [respond, ownTx, hl] at hr
    obtain ⟨rfl, rfl, rfl⟩ := hr
    exact ⟨rfl, hl, rfl, rfl⟩

theorem perform_commit {r : Except Err Unit} (hl : l.inTx = true) (hw : w.writer = some tx)
    (h : sem.perform c .commit (w, l) = some (r, s')) :
    (c = .ok ∧ r = .ok () ∧ s'.2.inTx = false ∧ s'.1.db = tx.copy ∧
      s'.1.commits = tx.copy :: w.commits) ∨
      ∃ msg gone left, c = .sqlFail msg gone left ∧ r = .error (.sqlite msg) ∧ s'.2.inTx = !gone ∧
        s'.1.db = w.db ∧
        s'.1.commits = w.commits ∧ (gone = false → s'.1.writer = some tx) := by
  obtain ⟨w', l'⟩ := s'
  obtain ⟨l₁, hr, rfl⟩ := perform_respond h
  have htx : ownTx (w, l) = some tx := by simp [ownTx, hl, hw]
  simp only [respond, htx] at hr
  cases c with
  | ok =>
    simp only [Option.some.injEq, Prod.mk.injEq] at hr
    obtain ⟨rfl, rfl, rfl⟩ := hr
    exact .inl ⟨rfl, rfl, rfl, rfl, rfl⟩
  | sqlFail msg gone left =>
    refine .inr ⟨msg, gone, left, rfl, ?_⟩
    cases gone with
    | true =>
      simp only [if_true, Option.some.injEq, Prod.mk.injEq] at hr
      obtain ⟨rfl, rfl, rfl⟩ := hr
      exact ⟨rfl, rfl, rfl, rfl, fun hgone => by simp at hgone⟩
    | false =>
      simp only [Bool.false_eq_true, if_false, Option.some.injEq, Prod.mk.injEq] at hr
      obtain ⟨rfl, rfl, rfl⟩ := hr
      exact ⟨rfl, hl, rfl, rfl, fun _ => hw⟩
  | _ => simp at hr

/-- The handler of the body. -/
theorem play_handler {e : Err} {out : Except Err α} {s : State}
    (hs : s.2.inTx = true → ∃ tx, s.1.writer = some tx)
    (h : sem.play anything cs ((Prog.call .rollback : P Unit).bind fun _ => (.raise e : P α)) s =
      some (.ended out, s')) :
    out = .error (if s.2.inTx then e else .sqlite noTransaction) ∧ AsBefore s.1 s' := by
  obtain ⟨c, cs, r, s₁, -, hp, h⟩ := Sem.play_act h
  obtain ⟨rfl, hbefore⟩ := perform_rollback hs hp
  cases hl : s.2.inTx with
  | true =>
    rw [hl] at h
    obtain ⟨-, rfl, rfl⟩ := Sem.play_ended (r := .error e) h
    exact ⟨rfl, hbefore⟩
  | false =>
    rw [hl] at h
    obtain ⟨-, rfl, rfl⟩ := Sem.play_ended (r := .error (Err.sqlite noTransaction)) h
    exact ⟨rfl, hbefore⟩

/-- COMMIT and its handler. -/
theorem play_commit {a : α} {out : Except Err α} {s : State} (hs : s.2.inTx = true)
    (hw : s.1.writer = some tx)
    (h : sem.play anything cs
      (((Prog.call .commit : P Unit).tryCatch fun e => (Prog.call .inTransaction).bind fun open_ =>
        (Prog.runIf open_ (.call .rollback)).bind fun _ => .raise e).bind fun _ =>
          .ret a) s = some (.ended out, s')) :
    (cs = [.ok] ∧ out = .ok a ∧ s'.2.inTx = false ∧ s'.1.db = tx.copy ∧
      s'.1.commits = tx.copy :: s.1.commits) ∨
      ∃ msg gone left rest, cs = .sqlFail msg gone left :: rest ∧ out = .error (.sqlite msg) ∧
        AsBefore s.1 s' := by
  obtain ⟨c, cs, r, s₁, rfl, hp, h⟩ := Sem.play_act h
  rcases perform_commit hs hw hp with ⟨rfl, rfl, hidle, hdb, hcommits⟩ |
      ⟨msg, gone, left, rfl, rfl, htx, hdb, hcommits, hwriter⟩
  · obtain ⟨rfl, rfl, rfl⟩ := Sem.play_ended (r := .ok a) h
    exact .inl ⟨rfl, rfl, hidle, hdb, hcommits⟩
  · refine .inr ⟨msg, gone, left, cs, rfl, ?_⟩
    -- is a transaction still open?
    obtain ⟨c, cs, r, s₂, rfl, hp, h⟩ := Sem.play_act h
    obtain ⟨rfl, rfl, rfl⟩ := perform_inTransaction hp
    rw [htx] at h
    cases gone with
    | true =>
      obtain ⟨-, rfl, rfl⟩ := Sem.play_ended (r := .error (Err.sqlite msg)) h
      exact ⟨rfl, htx, hdb, hcommits⟩
    | false =>
      obtain ⟨c, cs, r, s₃, rfl, hp, h⟩ := Sem.play_act h
      obtain ⟨rfl, hbefore⟩ := perform_rollback (fun _ => ⟨tx, hwriter rfl⟩) hp
      rw [show (s₁.2.note []).inTx = true from htx] at h
      obtain ⟨-, rfl, rfl⟩ := Sem.play_ended (r := .error (Err.sqlite msg)) h
      exact ⟨rfl, hbefore.idle, hbefore.kept.trans hdb, hbefore.commits.trans hcommits⟩

end Body

/-! ## The outermost block -/

/-- The statement of the body that failed and made SQLite roll back by itself, by its message. -/
def Block.rollsBackItself (b : Block α) (db : DB) : List Choice → Option String
  | _ :: .ok :: cs => match b.eval db cs with
    | some (.rolledBack msg, _, _) => some msg
    | _ => none
  | _ => none

/-- `transaction` on a connection that was idle: all of the body once, or nothing and the exception
of the body or of COMMIT. -/
structure Atomic (b : Block α) (w : World) (cs : List Choice) (out : Except Err α) (s' : State) :
    Prop where
  idle : s'.2.inTx = false
  committed : ∀ a, out = .ok a → ∃ db, b.meaning w.db cs = some (.ok a, db) ∧ s'.1.db = db ∧
    s'.1.commits = db :: w.commits
  undone : ∀ e, out = .error e → s'.1.db = w.db ∧ s'.1.commits = w.commits ∧
    b.meaning w.db cs = some (.error e, w.db)

section Outermost
variable {w : World} {l : Own} {cs : List Choice} {out : Except Err α} {s' : State} {b : Block α}

theorem AsBefore.atomic (h : AsBefore w s') {e : Err} (he : out = .error e) :
    Atomic b w cs out s' ↔ b.meaning w.db cs = some (.error e, w.db) := by
  refine ⟨fun ha => (ha.undone e he).2.2, fun hm =>
    ⟨h.idle, fun a ha => ?_, fun e' he' => ⟨h.kept, h.commits, ?_⟩⟩⟩
  · rw [he] at ha
    simp at ha
  · rw [hm, ← Except.error.inj (he.symm.trans he')]

theorem transaction_atomic_iff (hl : l.inTx = false)
    (h : sem.play anything cs (transaction b.program) (w, l) = some (.ended out, s')) :
    Atomic b w cs out s' ↔ ∀ msg, b.rollsBackItself w.db cs = some msg → msg = noTransaction := by
  -- no transaction is open
  obtain ⟨c, cs, r, s₁, rfl, hp, h⟩ := Sem.play_act h
  obtain ⟨rfl, rfl, rfl⟩ := perform_inTransaction hp
  rw [hl] at h
  obtain ⟨c, cs, r, s₁, rfl, hp, h⟩ := Sem.play_act h
  rcases perform_begin hp with ⟨rfl, rfl, rfl⟩ | ⟨msg, done, rfl, rfl, rfl⟩
  · have h' : sem.play anything cs
        ((b.program.tryCatch fun e => (Prog.call .rollback : P Unit).bind fun _ => .raise e).bind
        fun a =>
        ((Prog.call .commit : P Unit).tryCatch fun e => (Prog.call .inTransaction).bind fun open_ =>
          (Prog.runIf open_ (.call .rollback)).bind fun _ => .raise e).bind fun _ => .ret a)
        (w.begin_, ({ l.note [] with inTx := true } : Own).note [⟨.begin_, .ok⟩]) =
          some (.ended out, s') := h
    obtain ⟨cs₁, cs₂, r₁, s₂, hcs, h₁, h₂⟩ := Sem.play_bind h'
    obtain ⟨cs₃, cs₄, r₂, s₃, hcs₁, h₃, h₄⟩ := Sem.play_tryCatch h₁
    obtain ⟨end_, db, hends, rfl, hafter⟩ :=
      evaluates b (l := ({ l.note [] with inTx := true } : Own).note [⟨.begin_, .ok⟩]) rfl rfl h₃
    have heval : b.eval w.db cs = some (end_, db, cs₄ ++ cs₂) := by
      rw [hcs, hcs₁, List.append_assoc]
      exact hends _
    cases end_ with
    | returned a =>
      obtain ⟨rfl, rfl, rfl⟩ := Sem.play_ended (r := .ok a) h₄
      obtain ⟨tx, hw, rfl⟩ := hafter.copy rfl
      refine iff_of_true ?_ (by simp [Block.rollsBackItself, heval])
      have hmeaning : b.meaning w.db (.ok :: .ok :: cs) = commitOf a w.db tx.copy cs₂ := by
        simp [Block.meaning, heval]
      rcases play_commit hafter.inTx hw h₂ with ⟨rfl, rfl, hidle, hdb, hcommits⟩ |
          ⟨msg, gone, left, rest, rfl, rfl, hbefore⟩
      · refine ⟨hidle, fun a' ha => ⟨tx.copy, ?_, hdb, by rw [hcommits, hafter.commits]; rfl⟩,
          fun e he => by simp at he⟩
        rw [hmeaning, ← Except.ok.inj ha]
        rfl
      · have hbefore : AsBefore w s' := hbefore.after hafter
        exact (hbefore.atomic rfl).2 hmeaning
    | raised e =>
      obtain ⟨rfl, hbefore⟩ :=
        play_handler (fun hs => (hafter.copy (hafter.inTx.symm.trans hs)).imp fun _ h => h.1) h₄
      obtain ⟨-, rfl, rfl⟩ := Sem.play_ended (r := .error _) h₂
      have hbefore : AsBefore w s' := hbefore.after hafter
      refine iff_of_true ((hbefore.atomic rfl).2 ?_) (by simp [Block.rollsBackItself, heval])
      simp [Block.meaning, heval, hafter.inTx, Ending.stays]
    | rolledBack msg =>
      obtain ⟨rfl, hbefore⟩ :=
        play_handler (fun hs => (hafter.copy (hafter.inTx.symm.trans hs)).imp fun _ h => h.1) h₄
      obtain ⟨-, rfl, rfl⟩ := Sem.play_ended (r := .error _) h₂
      have hbefore : AsBefore w s' := hbefore.after hafter
      rw [hbefore.atomic rfl]
      simp [Block.meaning, heval, hafter.inTx, Ending.stays, Block.rollsBackItself]
  · obtain ⟨rfl, rfl, rfl⟩ := Sem.play_ended (r := .error (Err.sqlite msg)) h
    have hbefore : AsBefore w (w, (l.note []).note [⟨.begin_, .raised⟩]) := ⟨hl, rfl, rfl⟩
    exact iff_of_true ((hbefore.atomic rfl).2 rfl) (by simp [Block.rollsBackItself])

/-- Two statements, one of them in a nested block. -/
def twoEvents : Block Unit :=
  .stmt (logEvent "first" none "") fun _ => .nested (.stmt (logEvent "second" none "") .done) .done

def twoEventsCommitted : List Choice := [.ok, .ok, .inputs ⟨[1], []⟩, .ok, .inputs ⟨[2], []⟩, .ok]

theorem twoEvents_plays :
    ((sem.play anything twoEventsCommitted (transaction twoEvents.program)
      (World.initial, Own.idle 0)).bind
      fun x => x.1.outcome?.map fun out => (out, x.2.1.db.events.length)) = some (.ok (), 2) := by
  decide +kernel

theorem transaction_atomic_iff_twoEvents :
    ∃ s', s'.1.db.events.length = 2 ∧ Atomic twoEvents World.initial twoEventsCommitted
      (.ok ()) s' := by
  obtain ⟨⟨p, s'⟩, hplay, hx⟩ := Option.bind_eq_some_iff.1 twoEvents_plays
  obtain ⟨out, hout, hx⟩ := Option.map_eq_some_iff.1 hx
  obtain ⟨rfl, hlen⟩ := Prod.mk.inj hx
  obtain rfl : p = .ended _ := Prog.outcome?_eq_some.1 hout
  refine ⟨s', hlen, (transaction_atomic_iff rfl hplay).2 ?_⟩
  decide +kernel

/-- The disk is full at the second statement, and SQLite rolls back. -/
def twoEventsFull : List Choice :=
  [.ok, .ok, .inputs ⟨[1], []⟩, .ok, .sqlFail "database or disk is full" true World.initial.db, .ok]

/-- The caller sees the error of ROLLBACK. -/
theorem transaction_masks_error :
    ∃ s', sem.play anything twoEventsFull (transaction twoEvents.program)
      (World.initial, Own.idle 0) =
        some (.raise (.sqlite noTransaction), s') ∧
      ¬ Atomic twoEvents World.initial twoEventsFull (.error (.sqlite noTransaction)) s' := by
  have hplay : ((sem.play anything twoEventsFull (transaction twoEvents.program)
      (World.initial, Own.idle 0)).bind
      fun x => x.1.outcome?) = some (.error (.sqlite noTransaction)) := by decide +kernel
  obtain ⟨⟨p, s'⟩, hplay, hout⟩ := Option.bind_eq_some_iff.1 hplay
  obtain rfl : p = .ended _ := Prog.outcome?_eq_some.1 hout
  refine ⟨s', hplay, fun h => ?_⟩
  have hm := (h.undone _ rfl).2.2
  have hfull : (twoEvents.meaning World.initial.db twoEventsFull).map (·.1) =
      some (.error (.sqlite "database or disk is full")) := by
    decide +kernel
  rw [hm] at hfull
  revert hfull
  decide

end Outermost

end WebProxyPanel
