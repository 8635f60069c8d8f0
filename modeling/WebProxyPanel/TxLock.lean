import WebProxyPanel.Outer
import WebProxyPanel.Ends
import WebProxyPanel.Ops
import WebProxyPanel.Lib.Interleave
/-!
# What processes commit, one after the other

The write lock alone: if what each transaction commits is `C`-related to what was committed when it
began, then in every interleaving each COMMIT is a `C`-step of the committed database
(`committed_step`).

* `commits` — the promise of a process, at its COMMIT.
* `Fine` — a program that keeps it, from outside a transaction to outside; `FineIn` — the same for a
  body.
-/

namespace WebProxyPanel
open Effects

variable {α β : Type}

/-! ## Promise and interference -/

/-- While a process is in a transaction, nobody else commits, or touches it. -/
def Undisturbed (l : Own) (w w' : World) : Prop :=
  l.inTx = true → w'.db = w.db ∧ w'.writer = w.writer

theorem isRely_undisturbed : IsRely Undisturbed where
  refl _ _ _ := ⟨rfl, rfl⟩
  trans h h' hl := ⟨(h' hl).1.trans (h hl).1, (h' hl).2.trans (h hl).2⟩

def commits (C : DB → DB → Prop) (w : World) (l : Own) {β : Type} : Action β → Prop
  | .beginImmediate => l.inTx = false
  | .commit => ∃ tx, ownTx (w, l) = some tx ∧ C w.db tx.copy
  | .fwCall _ => l.inTx = true
  | _ => True

/-- What one action can do to the transactions. -/
inductive TxStep (C : DB → DB → Prop) (w : World) (l : Own) (w' : World) (l' : Own) : Prop
  | same : w'.db = w.db → w'.writer = w.writer → l'.inTx = l.inTx → TxStep C w l w' l'
  | begin_ : l.inTx = false → w.writer = none → w'.db = w.db → w'.writer ≠ none → l'.inTx = true →
      TxStep C w l w' l'
  | inside : l.inTx = true → w'.db = w.db → (w'.writer = none ↔ w.writer = none) → l'.inTx = true →
      TxStep C w l w' l'
  | commit : l.inTx = true → C w.db w'.db → w'.writer = none → l'.inTx = false → TxStep C w l w' l'
  | rollback : l.inTx = true → w'.db = w.db → w'.writer = none → l'.inTx = false →
      TxStep C w l w' l'

/-- The actions that have nothing to do with transactions. -/
def Action.aside {β : Type} : Action β → Prop
  | .beginImmediate | .commit | .rollback | .sql _ | .fwCall _ => False
  | _ => True

theorem respond_aside {c : Choice} {a : Action β} {w w' : World} {l l' : Own} {r : Except Err β}
    (ha : a.aside) (h : respond c a (w, l) = some (r, (w', l'))) :
    w'.db = w.db ∧ w'.writer = w.writer ∧ l'.inTx = l.inTx := by
  cases a <;> first
    | exact ha.elim
    | (simp only [respond, plain, read] at h
       grind [Own.replaced, World.replace, World.setFile, World.setUnits, World.setLock])

section Next
variable {ok : Allow Action Choice State} {w w' : World} {l l' : Own}

theorem next_aside {a : Action β} {r : Except Err β} (hn : sem.Next ok (w, l) a r (w', l'))
    (ha : a.aside) : w'.db = w.db ∧ w'.writer = w.writer ∧ l'.inTx = l.inTx := by
  obtain ⟨c, l₁, -, hr, hl⟩ := next_respond hn
  obtain ⟨hdb, hw, hin⟩ := respond_aside ha hr
  rw [hl]
  exact ⟨hdb, hw, hin⟩

theorem txStep_of_next {C : DB → DB → Prop} {a : Action β} {r : Except Err β} (hg : commits C w l a)
    (hn : sem.Next ok (w, l) a r (w', l')) : TxStep C w l w' l' := by
  have hown : ∀ {tx}, ownTx (w, l) = some tx → l.inTx = true ∧ w.writer = some tx := by
    intro tx htx
    unfold ownTx at htx
    cases hl : l.inTx <;> simp_all
  cases a with
  | beginImmediate =>
    rcases next_begin hn with ⟨-, hw, rfl, rfl⟩ | ⟨msg, done, -, -, rfl, rfl⟩
    · exact .begin_ hg hw rfl (by simp) rfl
    · exact .same rfl rfl rfl
  | commit =>
    obtain ⟨tx, htx, hC⟩ := hg
    obtain ⟨hl, hw⟩ := hown htx
    rcases next_commit htx hn with ⟨-, -, rfl, rfl⟩ |
        ⟨msg, gone, left, -, -, ⟨-, rfl, rfl⟩ | ⟨-, rfl, rfl⟩⟩
    · exact .commit hl hC rfl rfl
    · exact .rollback hl rfl rfl rfl
    · exact .same rfl rfl rfl
  | rollback =>
    rcases next_rollback hn with ⟨tx, htx, -, rfl, rfl⟩ | ⟨-, -, rfl, rfl⟩
    · exact .rollback (hown htx).1 rfl rfl rfl
    · exact .same rfl rfl rfl
  | sql s =>
    obtain ⟨tx, htx⟩ := next_sql_open hn
    obtain ⟨hl, hw⟩ := hown htx
    rcases next_sql htx hn with ⟨inp, db', -, -, rfl, rfl, -⟩ |
        ⟨msg, gone, left, -, -, ⟨-, rfl, rfl⟩ | ⟨-, rfl, rfl⟩⟩
    · exact .inside hl rfl (by simp [hw]) hl
    · exact .rollback hl rfl rfl rfl
    · exact .inside hl rfl (by simp [hw]) hl
  | fwCall call =>
    rcases next_fwCall hn with ⟨-, rfl, rfl⟩ | ⟨msg, done, -, -, rfl, rfl⟩
    · exact .inside hg rfl (by simp) hg
    · exact .inside hg rfl (by simp) hg
  | _ =>
    obtain ⟨hdb, hw, hl⟩ := next_aside hn trivial
    exact .same hdb hw hl

end Next

/-! ## Bodies -/

/-- An answer that a process in a transaction can get. -/
def Action.inside {β : Type} : Action β → β → Prop
  | .inTransaction, b => b = true
  | _, _ => True

/-- What operations ask for inside a transaction of their connection. -/
def Action.joins {β : Type} : Action β → Prop
  | .sql _ | .fwCall _ | .inTransaction | .now => True
  | _ => False

/-- Inside a transaction nothing else comes up, and an exception ends the program. -/
def Unwinds : P α → Prop
  | .ret _ | .raise _ => True
  | .act a k =>
    a.joins ∧ (∀ e, ∃ e', k (.error e) = .raise e') ∧ ∀ b, a.inside b → Unwinds (k (.ok b))

namespace Unwinds

theorem bind {p : P α} {f : α → P β} (hp : Unwinds p) (hf : ∀ a, Unwinds (f a)) :
    Unwinds (p.bind f) := by
  induction p with
  | ret a => exact hf a
  | raise e => trivial
  | act a k ih =>
    obtain ⟨ha, hraise, hk⟩ := hp
    refine ⟨ha, fun e => ?_, fun b hb => ih (.ok b) (hk b hb)⟩
    obtain ⟨e', he'⟩ := hraise e
    exact ⟨e', congrArg (·.bind f) he'⟩

theorem call {a : Action β} (ha : a.joins) : Unwinds (Prog.call a : P β) :=
  ⟨ha, fun e => ⟨e, rfl⟩, fun _ _ => trivial⟩

theorem sql (m : Sql α) : Unwinds (WebProxyPanel.sql m) := call trivial

theorem forM {ι : Type} {f : ι → P PUnit} (hf : ∀ x, Unwinds (f x)) :
    ∀ xs : List ι, Unwinds (xs.forM f)
  | [] => trivial
  | x :: xs => (hf x).bind fun _ => forM hf xs

theorem runIf {c : Prop} [Decidable c] {p : P Unit} (hp : Unwinds p) :
    Unwinds (Prog.runIf c p) := by
  unfold Prog.runIf
  split
  · exact hp
  · trivial

theorem block (ports : List Int) : Unwinds (WebProxyPanel.block ports) := by
  unfold WebProxyPanel.block
  split
  · trivial
  · exact call trivial

theorem unblock (ports : List Int) : Unwinds (WebProxyPanel.unblock ports) := by
  unfold WebProxyPanel.unblock
  split
  · trivial
  · exact call trivial

/-- A nested operation joins the transaction. -/
theorem change_iff {body : P α} : Unwinds (WebProxyPanel.change body) ↔ Unwinds body := by
  refine ⟨fun h => h.2.2 true rfl, fun h => ⟨trivial, fun e => ⟨e, rfl⟩, ?_⟩⟩
  rintro b rfl
  exact h

theorem transaction_iff {body : P α} : Unwinds (WebProxyPanel.transaction body) ↔ Unwinds body := by
  refine ⟨fun h => h.2.2 true rfl, fun h => ⟨trivial, fun e => ⟨e, rfl⟩, ?_⟩⟩
  rintro b rfl
  exact h

end Unwinds

/-! ## The functions of users.py, in a transaction -/

section Users
open Users

theorem unwinds_createUser (a : NewUser) : Unwinds (createUser a) := by
  unfold createUser
  refine Unwinds.bind ?_ fun x => Unwinds.bind (Unwinds.call trivial) fun timestamp =>
    Unwinds.change_iff.2 ?_
  · cases a.check <;> trivial
  · exact Unwinds.bind (Unwinds.sql _) fun x => Unwinds.bind (Unwinds.unblock _) fun _ => trivial

theorem unwinds_addDevice (userId : Int) (createdBy : String) (name : Option String) :
    Unwinds (addDevice userId createdBy name) := by
  unfold addDevice
  split
  · trivial
  · refine Unwinds.change_iff.2 (Unwinds.bind (Unwinds.sql _) fun x => ?_)
    exact Unwinds.bind (Unwinds.runIf (Unwinds.unblock _)) fun _ => trivial

theorem unwinds_deleteDevice (deviceId : Int) (by_ : String) :
    Unwinds (deleteDevice deviceId by_) :=
  Unwinds.change_iff.2 (Unwinds.bind (Unwinds.sql _) fun _ => Unwinds.block _)

theorem unwinds_rotateDevice (deviceId : Int) : Unwinds (rotateDevice deviceId) := by
  refine Unwinds.change_iff.2 (Unwinds.bind (Unwinds.sql _) fun x => ?_)
  exact Unwinds.bind (Unwinds.block _) fun _ => Unwinds.runIf (Unwinds.unblock _)

theorem unwinds_renameDevice (deviceId : Int) (name : String) :
    Unwinds (renameDevice deviceId name) :=
  Unwinds.transaction_iff.2 (Unwinds.sql _)

theorem unwinds_disableUser (userId : Int) (reason : String) :
    Unwinds (disableUser userId reason) := by
  unfold disableUser
  split
  · trivial
  · refine Unwinds.change_iff.2 (Unwinds.bind (Unwinds.sql _) fun ports => ?_)
    cases ports with
    | none => trivial
    | some ports => exact Unwinds.bind (Unwinds.block _) fun _ => trivial

theorem unwinds_enableUser (userId : Int) : Unwinds (enableUser userId) := by
  refine Unwinds.change_iff.2 (Unwinds.bind (Unwinds.sql _) fun ports => ?_)
  cases ports with
  | none => trivial
  | some ports => exact Unwinds.bind (Unwinds.unblock _) fun _ => trivial

theorem unwinds_maybeReenable (userId : Int) (reason : Reason) :
    Unwinds (maybeReenable userId reason) := by
  refine Unwinds.bind (Unwinds.sql _) fun ports => ?_
  cases ports with
  | none => trivial
  | some ports => exact Unwinds.unblock _

theorem unwinds_setExpiry (userId : Int) (expiresAt : Option Int) (enableNow : Bool) :
    Unwinds (setExpiry userId expiresAt enableNow) :=
  Unwinds.change_iff.2 (Unwinds.bind (Unwinds.sql _) fun _ =>
    Unwinds.runIf (unwinds_maybeReenable _ _))

theorem unwinds_extend (userId days : Int) (enableNow : Bool) :
    Unwinds (extend userId days enableNow) := by
  unfold extend
  split
  · trivial
  · refine Unwinds.change_iff.2 (Unwinds.bind (Unwinds.sql _) fun expiresAt => ?_)
    exact Unwinds.bind (unwinds_setExpiry _ _ _) fun _ => trivial

theorem unwinds_setTrafficLimit (userId : Int) (limitBytes : Option Int) (reset : String)
    (enableNow : Bool) : Unwinds (setTrafficLimit userId limitBytes reset enableNow) := by
  unfold setTrafficLimit
  split
  · trivial
  split
  · trivial
  · exact Unwinds.change_iff.2 (Unwinds.bind (Unwinds.sql _) fun _ =>
      Unwinds.runIf (unwinds_maybeReenable _ _))

theorem unwinds_updateProfile (userId : Int) (a : ProfileUpdate) :
    Unwinds (updateProfile userId a) :=
  Unwinds.transaction_iff.2 (Unwinds.sql _)

theorem unwinds_deleteUser (userId : Int) : Unwinds (deleteUser userId) :=
  Unwinds.change_iff.2 (Unwinds.bind (Unwinds.sql _) fun _ => Unwinds.block _)

theorem unwinds_program {op : Op} (hu : op.isUser = true) : Unwinds op.program := by
  cases op with
  | createUser a => exact Unwinds.bind (unwinds_createUser a) fun _ => trivial
  | addDevice userId createdBy name =>
    exact Unwinds.bind (unwinds_addDevice userId createdBy name) fun _ => trivial
  | deleteDevice deviceId by_ => exact unwinds_deleteDevice deviceId by_
  | rotateDevice deviceId => exact unwinds_rotateDevice deviceId
  | renameDevice deviceId name => exact unwinds_renameDevice deviceId name
  | disableUser userId reason =>
    exact Unwinds.bind (unwinds_disableUser userId reason) fun _ => trivial
  | enableUser userId => exact Unwinds.bind (unwinds_enableUser userId) fun _ => trivial
  | setExpiry userId expiresAt enableNow => exact unwinds_setExpiry userId expiresAt enableNow
  | extend userId days enableNow =>
    exact Unwinds.bind (unwinds_extend userId days enableNow) fun _ => trivial
  | setTrafficLimit userId limitBytes reset enableNow =>
    exact unwinds_setTrafficLimit userId limitBytes reset enableNow
  | updateProfile userId a => exact unwinds_updateProfile userId a
  | deleteUser userId => exact unwinds_deleteUser userId
  | maintain cfg sizing growShards => simp [Op.isUser] at hu
  | sync => simp [Op.isUser] at hu

end Users

/-- In the own transaction that began on `D`. -/
structure InCopy (D copy : DB) (w : World) (l : Own) : Prop where
  inTx : l.inTx = true
  db : w.db = D
  writer : ∃ tx, w.writer = some tx ∧ tx.copy = copy

/-- On the way out with an exception: an open transaction is still the own one. -/
def StillOwn (_ : Err) (w : World) (l : Own) : Prop := l.inTx = true → ∃ tx, w.writer = some tx

theorem InCopy.undisturbed {D copy : DB} {w w' : World} {l : Own} (h : InCopy D copy w l)
    (hr : Undisturbed l w w') : InCopy D copy w' l :=
  ⟨h.inTx, (hr h.inTx).1.trans h.db, by rw [(hr h.inTx).2]; exact h.writer⟩

theorem StillOwn.undisturbed {e : Err} {w w' : World} {l : Own} (h : StillOwn e w l)
    (hr : Undisturbed l w w') : StillOwn e w' l :=
  fun hl => by rw [(hr hl).2]; exact h hl

section Bodies
variable {ok : Allow Action Choice State} {C : DB → DB → Prop} {T : Int → Prop} {w : World}
  {l : Own}

/-- What a body has written when it returns. -/
def AtCommit (Q : DB → α → DB → List FwCall → Prop) (a : α) (w : World) (l : Own) : Prop :=
  ∃ copy calls, Q w.db a copy calls ∧ InCopy w.db copy w l

theorem stable_atCommit (Q : DB → α → DB → List FwCall → Prop) :
    StableQ Undisturbed (post (AtCommit Q) StillOwn) := by
  refine StableQ.post ?_ fun e w l w₁ hr h => h.undisturbed hr
  rintro a w l w₁ hr ⟨copy, calls, hq, hin⟩
  have hdb : w₁.db = w.db := (hr hin.inTx).1
  exact ⟨copy, calls, hdb ▸ hq, hdb ▸ hin.undisturbed hr⟩

theorem Ends.held (hT : Clocked T ok) {Q : DB → α → DB → List FwCall → Prop} {D : DB} {p : P α}
    {copy : DB} {calls : List FwCall} {w : World} {l : Own} (h : Ends T p (Q D) copy calls)
    (hp : Unwinds p) (hin : InCopy D copy w l) :
    Safe sem ok Undisturbed (commits C) (post (AtCommit Q) StillOwn) p w l := by
  induction p generalizing copy calls w l with
  | ret a =>
    refine Safe.retStable (stable_atCommit Q) ⟨copy, calls, ?_, ?_⟩
    · rw [hin.db]
      exact h
    · rw [hin.db]
      exact hin
  | raise e =>
    exact Safe.raiseStable (stable_atCommit Q) fun _ => hin.writer.imp fun _ h => h.1
  | act a k ih =>
    intro w₁ hr
    have hin := hin.undisturbed hr
    obtain ⟨tx, hw, hcopy⟩ := hin.writer
    have htx : ownTx (w₁, l) = some tx := by simp [ownTx, hin.inTx, hw]
    obtain ⟨hnext, -⟩ := h
    obtain ⟨-, hraise, hk⟩ := hp
    have herr : ∀ e w₂ l₂, (l₂.inTx = true → ∃ tx, w₂.writer = some tx) →
        Safe sem ok Undisturbed (commits C) (post (AtCommit Q) StillOwn) (k (.error e)) w₂ l₂ := by
      intro e w₂ l₂ hleft
      obtain ⟨e', he'⟩ := hraise e
      rw [he']
      exact Safe.raiseStable (stable_atCommit Q) hleft
    cases a with
    | sql m =>
      refine ⟨trivial, fun r w₂ l₂ hn => ?_⟩
      rcases next_sql htx hn with ⟨inp, db', hok, -, rfl, rfl, ⟨b, hm, rfl⟩ | ⟨e, -, rfl⟩⟩ |
          ⟨msg, gone, left, -, rfl, ⟨-, rfl, rfl⟩ | ⟨-, rfl, rfl⟩⟩
      · rw [hcopy] at hm
        obtain ⟨hq, -⟩ := hnext inp b db' _ (hT inp _ _ hok) hm
        exact ih (.ok b) hq (hk b trivial) ⟨hin.inTx, hin.db, _, rfl, rfl⟩
      · exact herr _ _ _ fun _ => ⟨_, rfl⟩
      · exact herr _ _ _ fun hl => by simp at hl
      · exact herr _ _ _ fun _ => ⟨_, rfl⟩
    | fwCall call =>
      refine ⟨hin.inTx, fun r w₂ l₂ hn => ?_⟩
      have hnoted : ∀ fails done, ∃ tx', (w₁.fwCall call fails done).writer = some tx' ∧
          tx'.copy = copy := by
        intro fails done
        exact ⟨{ tx with issued := tx.issued ++ [call], failed := tx.failed || fails }, by simp [hw], hcopy⟩
      rcases next_fwCall hn with ⟨rfl, rfl, rfl⟩ | ⟨msg, done, -, rfl, rfl, rfl⟩
      · exact ih (.ok ()) hnext (hk () trivial) ⟨hin.inTx, hin.db, hnoted _ _⟩
      · exact herr _ _ _ fun _ => (hnoted true done).imp fun _ h => h.1
    | inTransaction =>
      refine ⟨trivial, fun r w₂ l₂ hn => ?_⟩
      obtain ⟨rfl, rfl, rfl⟩ := next_inTransaction hn
      rw [hin.inTx]
      exact ih (.ok true) hnext (hk true rfl) hin
    | _ => exact hnext.elim

/-! ## Operations -/

/-- From outside a transaction to outside, with each COMMIT a `C`-step. -/
def Fine (ok : Allow Action Choice State) (C : DB → DB → Prop) (p : P α) : Prop :=
  ∀ w l, l.inTx = false → Safe sem ok Undisturbed (commits C) (fun _ _ l => l.inTx = false) p w l

theorem stable_outside :
    StableQ Undisturbed (fun (_ : Except Err α) (_ : World) (l : Own) => l.inTx = false) :=
  fun _ _ _ _ _ h => h

theorem Fine.ret (a : α) : Fine ok C (.ret a : P α) :=
  fun _ _ hl => Safe.retStable stable_outside hl

theorem Fine.raise (e : Err) : Fine ok C (.raise e : P α) :=
  fun _ _ hl => Safe.raiseStable stable_outside hl

theorem Fine.bind {p : P α} {f : α → P β} (hp : Fine ok C p) (hf : ∀ a, Fine ok C (f a)) :
    Fine ok C (p.bind f) := by
  intro w l hl
  refine Safe.seq isRely_undisturbed (K := fun _ _ l => l.inTx = false) ((hp w l hl).mono ?_) fun a
    w l hl => hf a w l hl
  rintro (e | a) w l h
  · exact h
  · exact h

theorem Fine.only {p : P α} (hp : p.Only Action.aside) : Fine ok C p := by
  intro w l hl
  refine Safe.only (fun _ _ _ _ h => h) (fun a w l ha h => ⟨?_, fun r w' l' hn => ?_⟩) hp hl
  · cases a <;> first | exact ha.elim | trivial
  · exact (next_aside hn ha).2.2.trans h

theorem Fine.tryCatch {p : P α} {f : Err → P α} (hp : Fine ok C p) (hf : ∀ e, Fine ok C (f e)) :
    Fine ok C (p.tryCatch f) := by
  intro w l hl
  refine Safe.handle isRely_undisturbed (E := fun _ _ l => l.inTx = false) ((hp w l hl).mono ?_)
    fun e w l hl => hf e w l hl
  rintro (e | a) w l h
  · exact h
  · exact h

theorem Fine.bestEffort {p : P Unit} (hp : Fine ok C p) : Fine ok C (bestEffort p) :=
  hp.tryCatch fun _ => Fine.ret ()

theorem Fine.runIf {c : Prop} [Decidable c] {p : P Unit} (hp : Fine ok C p) :
    Fine ok C (Prog.runIf c p) := by
  unfold Prog.runIf
  split
  · exact hp
  · exact Fine.ret ()

theorem Fine.forM {ι : Type} {f : ι → P PUnit} (hf : ∀ x, Fine ok C (f x)) :
    ∀ xs : List ι, Fine ok C (xs.forM f)
  | [] => Fine.ret _
  | x :: xs => (hf x).bind fun _ => Fine.forM hf xs

theorem Fine.tryFinally {p : P α} {q : P Unit} (hp : Fine ok C p) (hq : Fine ok C q) :
    Fine ok C (p.tryFinally q) := by
  unfold Prog.tryFinally
  refine Fine.bind (Fine.tryCatch (hp.bind fun a => Fine.ret _) fun e => Fine.ret _) fun out =>
    hq.bind fun _ => ?_
  cases out with
  | ok a => exact Fine.ret a
  | error e => exact Fine.raise e

/-- A body that writes what may be committed. -/
theorem Fine.ofBody {Q : DB → α → DB → List FwCall → Prop} {body : P α}
    (hbody : ∀ w l, InCopy w.db w.db w l →
      Safe sem ok Undisturbed (commits C) (post (AtCommit Q) StillOwn) body w l)
    (hC : ∀ D a D' calls, Q D a D' calls → C D D') : Fine ok C (transaction body) := by
  intro w l hl
  refine safe_transaction isRely_undisturbed (fun _ _ => ⟨trivial, trivial⟩) (stable_atCommit Q)
    stable_outside hl (fun w₁ _ => ⟨hl, fun _ _ _ => hl⟩) ?_ ?_ ?_
  · intro w₁ _ _
    exact hbody _ _ ⟨rfl, rfl, _, rfl, rfl⟩
  · rintro a w₁ l₁ ⟨copy, calls, hq, hin⟩
    obtain ⟨tx, hw, rfl⟩ := hin.writer
    have htx : ownTx (w₁, l₁) = some tx := by simp [ownTx, hin.inTx, hw]
    refine ⟨tx, htx, ⟨tx, htx, hC _ _ _ _ hq⟩, rfl, fun _ _ _ => rfl, fun msg left w₂ _ hr =>
      ⟨tx, ?_, rfl⟩⟩
    have hwriter : w₂.writer = w₁.writer := (hr hin.inTx).2
    simp [ownTx, hin.inTx, hwriter, hw]
  · intro e w₁ l₁ hstill
    unfold RollsBack
    split
    · rfl
    · rename_i htx
      intro e'
      show l₁.inTx = false
      by_contra hne
      have hin : l₁.inTx = true := eq_true_of_ne_false hne
      obtain ⟨tx, hw⟩ := hstill hin
      simp [ownTx, hin, hw] at htx

theorem Fine.transaction (hT : Clocked T ok) {Q : DB → α → DB → List FwCall → Prop} {body : P α}
    (hbody : ∀ D, Ends T body (Q D) D []) (hunwinds : Unwinds (transaction body))
    (hC : ∀ D a D' calls, Q D a D' calls → C D D') : Fine ok C (transaction body) :=
  Fine.ofBody (fun _ _ hin => Ends.held hT (hbody _) (Unwinds.transaction_iff.1 hunwinds) hin) hC

/-- A transaction around calls that write nothing. -/
theorem Fine.around {body : P α} (hbody : body.Only Action.aside) (hC : ∀ D, C D D) :
    Fine ok C (WebProxyPanel.transaction body) := by
  refine Fine.ofBody (Q := fun D _ D' _ => D' = D) (fun w l hin => ?_) fun D _ D' _ h => h ▸ hC D
  have hsafe : Safe sem ok Undisturbed (commits C) (fun _ w l => InCopy w.db w.db w l)
      body w l := by
    refine Safe.only (fun l w w' hr h => ?_)
      (fun a w l ha h => ⟨?_, fun r w' l' hn => ?_⟩) hbody hin
    · exact (hr h.inTx).1 ▸ h.undisturbed hr
    · cases a <;> first | exact ha.elim | trivial
    · obtain ⟨hdb, hw, hl⟩ := next_aside hn ha
      exact ⟨hl.trans h.inTx, rfl, by rw [hw, hdb]; exact h.writer⟩
  refine hsafe.mono ?_
  rintro (e | a) w l h
  · exact fun _ => h.writer.imp fun _ h => h.1
  · exact ⟨w.db, [], rfl, h⟩

theorem aside_sync : syncFirewall.Only Action.aside := by
  unfold syncFirewall
  refine Prog.Only.bind (Prog.Only.call trivial) fun ports =>
    Prog.Only.bind (Prog.Only.call trivial) fun blocked => ?_
  refine Prog.Only.bind (Prog.Only.call trivial) fun shards => ?_
  split
  · trivial
  split
  · trivial
  exact Prog.Only.bind (Prog.Only.call trivial) fun _ => Prog.Only.call trivial

theorem Fine.change (hT : Clocked T ok) {Q : DB → α → DB → List FwCall → Prop} {body : P α}
    (hbody : ∀ D, Ends T body (Q D) D []) (hunwinds : Unwinds (WebProxyPanel.change body))
    (hC : ∀ D a D' calls, Q D a D' calls → C D D') : Fine ok C (WebProxyPanel.change body) := by
  intro w l hl
  unfold WebProxyPanel.change
  simp only [Prog.bind_eq]
  refine Safe.callThen isRely_undisturbed stable_outside fun w₁ h₁ =>
    ⟨trivial, fun r w₂ l₂ hn => ?_⟩
  obtain ⟨rfl, rfl, rfl⟩ := next_inTransaction hn
  simp only [thenSafe, hl, Bool.false_eq_true, if_false]
  refine Safe.callThen isRely_undisturbed stable_outside fun w₃ h₃ =>
    ⟨trivial, fun r w₄ l₄ hn => ?_⟩
  obtain ⟨rfl, rfl, rfl⟩ := next_firewallCalls hn
  simp only [thenSafe]
  refine Safe.handle isRely_undisturbed (E := fun _ _ l => l.inTx = false) ?_ fun e w₅ l₅ hl₅ => ?_
  · refine (Fine.transaction hT hbody (Unwinds.transaction_iff.2 (Unwinds.change_iff.1 hunwinds)) hC
      _ _ hl).mono ?_
    rintro (e | a) w l h
    · exact h
    · exact h
  · have hcalls : (Prog.call Action.firewallCalls : P Nat).Only Action.aside :=
      Prog.Only.call trivial
    refine Fine.bind (Fine.only hcalls) (fun calls => Fine.bind (Fine.only ?_) fun _ =>
      Fine.raise e) _ _ hl₅
    exact Prog.Only.runIf (only_bestEffort aside_sync)

end Bodies

/-! ## All processes together -/

section Together
variable {ι : Type} [DecidableEq ι]

/-- One write transaction at a time. -/
structure OneWriter (w : World) (ls : ι → Own) : Prop where
  tx : ∀ i j, (ls i).inTx = true → (ls j).inTx = true → i = j
  writer : w.writer ≠ none ↔ ∃ i, (ls i).inTx = true

variable {C : DB → DB → Prop} {w w' : World} {ls : ι → Own} {i : ι} {l' : Own}

theorem inTx_update (j : ι) :
    (Function.update ls i l' j).inTx = if j = i then l'.inTx else (ls j).inTx := by
  by_cases hj : j = i
  · rw [if_pos hj, hj, Function.update_self]
  · rw [if_neg hj, Function.update_of_ne hj]

/-- Nothing changes hands. -/
theorem OneWriter.same (h : OneWriter w ls) (hw : w'.writer = none ↔ w.writer = none)
    (hl : l'.inTx = (ls i).inTx) : OneWriter w' (Function.update ls i l') := by
  have hin : ∀ j, (Function.update ls i l' j).inTx = (ls j).inTx := by
    intro j
    rw [inTx_update]
    by_cases hj : j = i
    · rw [if_pos hj, hl, hj]
    · rw [if_neg hj]
  refine ⟨?_, ?_⟩
  · simpa only [hin] using h.tx
  · simpa only [hin, ne_eq, hw] using h.writer

theorem OneWriter.ends (h : OneWriter w ls) (hi : (ls i).inTx = true) (hw : w'.writer = none)
    (hl : l'.inTx = false) : OneWriter w' (Function.update ls i l') := by
  have hnone : ∀ j, (Function.update ls i l' j).inTx = false := by
    intro j
    rw [inTx_update]
    by_cases hj : j = i
    · rw [if_pos hj, hl]
    · rw [if_neg hj]
      by_contra hne
      exact hj (h.tx j i (eq_true_of_ne_false hne) hi)
  refine ⟨fun j k hj => ?_, ?_⟩
  · rw [hnone j] at hj
    simp at hj
  · simp [hw, hnone]

theorem OneWriter.step (h : OneWriter w ls) (hs : TxStep C w (ls i) w' l') :
    OneWriter w' (Function.update ls i l') ∧ (∀ j, j ≠ i → Undisturbed (ls j) w w') := by
  have hfree : w.writer = none → ∀ j, (ls j).inTx = false := by
    intro hw j
    by_contra hne
    exact h.writer.2 ⟨j, eq_true_of_ne_false hne⟩ hw
  have hothers : (ls i).inTx = true → ∀ j, j ≠ i → Undisturbed (ls j) w w' := by
    intro hi j hj hl
    exact absurd (h.tx j i hl hi) hj
  cases hs with
  | same hdb hw hl => exact ⟨h.same (by rw [hw]) hl, fun _ _ _ => ⟨hdb, hw⟩⟩
  | begin_ hi hw hdb hw' hl =>
    refine ⟨⟨fun j k hj hk => ?_, ?_⟩, fun j _ hl' => ?_⟩
    · rw [inTx_update, hfree hw] at hj hk
      by_cases hji : j = i
      · by_cases hki : k = i
        · rw [hji, hki]
        · simp [hki] at hk
      · simp [hji] at hj
    · refine ⟨fun _ => ⟨i, by rw [inTx_update, if_pos rfl, hl]⟩, fun _ => hw'⟩
    · rw [hfree hw j] at hl'
      simp at hl'
  | inside hi hdb hw hl => exact ⟨h.same hw (hl.trans hi.symm), hothers hi⟩
  | commit hi hC hw hl => exact ⟨h.ends hi hw hl, hothers hi⟩
  | rollback hi hdb hw hl => exact ⟨h.ends hi hw hl, hothers hi⟩

theorem db_crash (w : World) (l : Own) : (WebProxyPanel.crash (w, l)).1.db = w.db := by
  unfold WebProxyPanel.crash
  dsimp only
  split <;> split <;> rfl

/-- A process that stops gives up its transaction. -/
theorem OneWriter.crash (h : OneWriter w ls) (i : ι) :
    OneWriter (crash (w, ls i)).1 (Function.update ls i (crash (w, ls i)).2) ∧
      (∀ j, j ≠ i → Undisturbed (ls j) w (WebProxyPanel.crash (w, ls i)).1) := by
  have hdb := db_crash w (ls i)
  by_cases hi : (ls i).inTx = true
  · have hw : (WebProxyPanel.crash (w, ls i)).1.writer = none := by
      simp only [WebProxyPanel.crash, hi, if_true]
      split <;> rfl
    exact ⟨h.ends hi hw rfl, fun j hj hl => absurd (h.tx j i hl hi) hj⟩
  · have hw : (WebProxyPanel.crash (w, ls i)).1.writer = w.writer := by
      simp only [WebProxyPanel.crash, hi]
      split <;> rfl
    exact ⟨h.same (by rw [hw]) (eq_false_of_ne_true hi).symm, fun _ _ _ => ⟨hdb, hw⟩⟩

/-! ## Processes that run such operations -/

variable {Op : Type} {program : Op → P Unit} {ok : Allow Action Choice State} {mayStop : Prop}

def txSystem (program : Op → P Unit) : System Op Action Err Choice World Own :=
  ⟨sem, program, WebProxyPanel.crash⟩

theorem composes_txSystem (hfine : ∀ op, Fine ok C (program op)) :
    System.Composes (txSystem program) ok mayStop Undisturbed (fun _ => commits C)
      (fun _ l => l.inTx = false)
      (OneWriter : World → (ι → Own) → Prop) where
  rely := isRely_undisturbed
  idle _ _ _ _ h := h
  safe op w l hl := hfine op w l hl
  act _ _ _ _ _ _ _ _ _ hJ hg hn := hJ.step (txStep_of_next hg hn)
  stop _ _ _ i hJ := ⟨(hJ.crash i).1, (hJ.crash i).2, rfl⟩

/-- All processes are in order. -/
abbrev InOrder (ok : Allow Action Choice State) (C : DB → DB → Prop) (program : Op → P Unit)
    (c : Configuration ι Op Action Err World Own) : Prop :=
  System.Good (txSystem program) ok Undisturbed (fun _ => commits C)
    (fun _ l => l.inTx = false) OneWriter c

/-- A step of one process leaves the committed database alone, or is a `C`-step of it. -/
theorem committed_step {c c' : Configuration ι Op Action Err World Own} (h : InOrder ok C program c)
    {i : ι} (hs : (txSystem program).Step ok mayStop i c c') :
    c'.shared.db = c.shared.db ∨ C c.shared.db c'.shared.db := by
  cases hs with
  | start => exact .inl rfl
  | act hr hn =>
    cases txStep_of_next (h.guard isRely_undisturbed hr) hn with
    | same hdb => exact .inl hdb
    | begin_ _ _ hdb => exact .inl hdb
    | inside _ hdb => exact .inl hdb
    | commit _ hC => exact .inr hC
    | rollback _ hdb => exact .inl hdb
  | finish => exact .inl rfl
  | stop => exact .inl (db_crash _ _)

/-- A step of one process leaves the transactions of the others alone. -/
theorem undisturbed_step {c c' : Configuration ι Op Action Err World Own}
    (h : InOrder ok C program c) {i j : ι} (hj : j ≠ i)
    (hs : (txSystem program).Step ok mayStop i c c') :
    Undisturbed (c.own j) c.shared c'.shared := by
  cases hs with
  | start => exact isRely_undisturbed.refl _ _
  | act hr hn => exact (h.global.step (txStep_of_next (h.guard isRely_undisturbed hr) hn)).2 j hj
  | finish => exact isRely_undisturbed.refl _ _
  | stop => exact (h.global.crash i).2 j hj

end Together

end WebProxyPanel
