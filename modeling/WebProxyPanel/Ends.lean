import WebProxyPanel.Alone
/-!
# What a successful operation leaves

Statements and the bodies of transactions, seen from their successful end only: an exception undoes
the transaction, so for it there is nothing to say here.

* `Sql.Ends T m Q db` — if the statements `m` succeed on `db`, with all clock readings in `T`, then
  `Q` holds of the result and of the database.
* `Ends T p Q db calls` — the same for the body of a transaction, `Q` speaking of the firewall calls
  too.
* `Clocked T ok` — the fault model `ok` lets the clock show values in `T` only.
-/

namespace WebProxyPanel
open Effects

namespace Sql
variable {α β : Type} {T : Int → Prop} {db : DB}

def Ends (T : Int → Prop) (m : Sql α) (Q : α → DB → Prop) (db : DB) : Prop :=
  ∀ inp a db' inp', (∀ t ∈ inp.times, T t) → m db inp = .ok a db' inp' → Q a db' ∧
    ∀ t ∈ inp'.times, T t

theorem Ends.mono {m : Sql α} {Q Q' : α → DB → Prop} (h : m.Ends T Q db)
    (hQ : ∀ a db', Q a db' → Q' a db') :
    m.Ends T Q' db := fun inp a db' inp' ht hm => (h inp a db' inp' ht hm).imp_left (hQ a db')

theorem Ends.and {m : Sql α} {Q Q' : α → DB → Prop} (h : m.Ends T Q db) (h' : m.Ends T Q' db) :
    m.Ends T (fun a db' => Q a db' ∧ Q' a db') db := by
  intro inp a db' inp' ht hm
  obtain ⟨hq, ht'⟩ := h inp a db' inp' ht hm
  exact ⟨⟨hq, (h' inp a db' inp' ht hm).1⟩, ht'⟩

theorem Ends.pure {a : α} {Q : α → DB → Prop} (h : Q a db) : (Pure.pure a : Sql α).Ends T Q db := by
  intro inp a db' inp' ht hm
  obtain ⟨rfl, rfl, rfl⟩ := pure_eq_ok.1 hm
  exact ⟨h, ht⟩

theorem Ends.query {f : DB → α} {Q : α → DB → Prop} (h : Q (f db) db) :
    (Sql.query f).Ends T Q db := by
  intro inp a db' inp' ht hm
  obtain ⟨rfl, rfl, rfl⟩ := query_eq_ok.1 hm
  exact ⟨h, ht⟩

theorem Ends.raise {e : Err} {Q : α → DB → Prop} : (Sql.raise e : Sql α).Ends T Q db :=
  fun _ _ _ _ _ hm => absurd hm raise_ne_ok

/-- A writing statement that succeeds has kept the constraints. -/
theorem Ends.execute {f : DB → DB} {Q : Unit → DB → Prop} (h : (f db).Consistent → Q () (f db)) :
    (Sql.execute f).Ends T Q db := by
  intro inp a db' inp' ht hm
  obtain ⟨hc, rfl, rfl⟩ := execute_eq_ok.1 hm
  exact ⟨h hc, ht⟩

theorem Ends.now {Q : Int → DB → Prop} (h : ∀ t, T t → Q t db) : Sql.now.Ends T Q db := by
  intro inp t db' inp' ht hm
  obtain ⟨htimes, -, rfl⟩ := now_eq_ok.1 hm
  rw [htimes] at ht
  exact ⟨h t (ht t List.mem_cons_self), fun x hx => ht x (List.mem_cons_of_mem _ hx)⟩

theorem Ends.orRaise {o : Option α} {e : Err} {Q : α → DB → Prop} (h : ∀ a, o = some a → Q a db) :
    (Sql.orRaise o e).Ends T Q db := by
  cases o with
  | none => exact Ends.raise
  | some a => exact Ends.pure (h a rfl)

theorem Ends.bind {m : Sql α} {f : α → Sql β} {Q : β → DB → Prop}
    (h : m.Ends T (fun a db' => (f a).Ends T Q db') db) : (m >>= f).Ends T Q db := by
  intro inp b db' inp' ht hm
  obtain ⟨a, db₁, inp₁, h₁, h₂⟩ := bind_eq_ok.1 hm
  obtain ⟨hf, ht₁⟩ := h inp a db₁ inp₁ ht h₁
  exact hf inp₁ b db' inp' ht₁ h₂

theorem Ends.forM {ι : Type} {f : ι → Sql PUnit} {I : DB → Prop}
    (hf : ∀ x db, I db → (f x).Ends T (fun _ db' => I db') db) :
    ∀ (xs : List ι) {db : DB}, I db → (xs.forM f).Ends T (fun _ db' => I db') db
  | [], _, h => Ends.pure h
  | x :: xs, db, h => Ends.bind ((hf x db h).mono fun _ _ h' => Ends.forM hf xs h')

end Sql

/-! ## Bodies -/

/-- All clock readings are in `T`. -/
def Clocked (T : Int → Prop) (ok : Allow Action Choice State) : Prop :=
  ∀ inp {β : Type} (a : Action β) (s : State), ok (.inputs inp) a s → ∀ t ∈ inp.times, T t

/-- One action of a body, and what must hold of its answer. -/
def actEnds (T : Int → Prop) {β : Type} (a : Action β) (next : β → DB → List FwCall → Prop)
    (db : DB) (calls : List FwCall) : Prop :=
  match a with
  | .sql m => m.Ends T (fun b db' => next b db' calls) db
  | .fwCall call => next () db (calls ++ [call])
  | .inTransaction => next true db calls
  | _ => False

def Ends (T : Int → Prop) {α : Type} : P α → (α → DB → List FwCall → Prop) → DB → List FwCall → Prop
  | .ret a, Q, db, calls => Q a db calls
  | .raise _, _, _, _ => True
  | .act a k, Q, db, calls =>
    actEnds T a (fun b db calls => Ends T (k (.ok b)) Q db calls) db calls ∧ ∀ e,
      (k (.error e)).NeverReturns

section Ends
variable {α β : Type} {T : Int → Prop} {db : DB} {calls : List FwCall}

theorem actEnds.mono {a : Action β} {next next' : β → DB → List FwCall → Prop}
    (h : actEnds T a next db calls) (hn : ∀ b db calls, next b db calls → next' b db calls) :
    actEnds T a next' db calls := by
  cases a with
  | sql m => exact Sql.Ends.mono h fun b db' => hn b db' calls
  | fwCall call => exact hn _ _ _ h
  | inTransaction => exact hn _ _ _ h
  | _ => exact h

theorem Ends.mono {Q Q' : α → DB → List FwCall → Prop}
    (hQ : ∀ a db calls, Q a db calls → Q' a db calls) :
    ∀ {p : P α} {db : DB} {calls : List FwCall}, Ends T p Q db calls → Ends T p Q' db calls
  | .ret _, _, _, h => hQ _ _ _ h
  | .raise _, _, _, _ => trivial
  | .act _ _, _, _, h => ⟨h.1.mono fun _ _ _ h' => h'.mono hQ, h.2⟩

theorem actEnds.and {a : Action β} {next next' next'' : β → DB → List FwCall → Prop}
    (h : actEnds T a next db calls) (h' : actEnds T a next' db calls)
    (hn : ∀ b db calls, next b db calls → next' b db calls → next'' b db calls) :
    actEnds T a next'' db calls := by
  cases a with
  | sql m =>
    intro inp b db' inp' ht hm
    obtain ⟨hb, ht'⟩ := h inp b db' inp' ht hm
    exact ⟨hn _ _ _ hb (h' inp b db' inp' ht hm).1, ht'⟩
  | fwCall call => exact hn _ _ _ h h'
  | inTransaction => exact hn _ _ _ h h'
  | _ => exact h

theorem Ends.and {Q Q' : α → DB → List FwCall → Prop} :
    ∀ {p : P α} {db : DB} {calls : List FwCall}, Ends T p Q db calls →
    Ends T p Q' db calls → Ends T p (fun a db calls => Q a db calls ∧ Q' a db calls) db calls
  | .ret _, _, _, h, h' => ⟨h, h'⟩
  | .raise _, _, _, _, _ => trivial
  | .act _ _, _, _, h, h' => ⟨h.1.and h'.1 fun _ _ _ hb hb' => hb.and hb', h.2⟩

theorem neverReturns_bind {f : α → P β} : ∀ {p : P α}, p.NeverReturns → (p.bind f).NeverReturns
  | .ret _, h => h.elim
  | .raise _, _ => trivial
  | .act _ _, h => fun r => neverReturns_bind (h r)

theorem Ends.bind {f : α → P β} {Q : β → DB → List FwCall → Prop} :
    ∀ {p : P α} {db : DB} {calls : List FwCall},
    Ends T p (fun a db calls => Ends T (f a) Q db calls) db calls → Ends T (p.bind f) Q db calls
  | .ret _, _, _, h => h
  | .raise _, _, _, _ => trivial
  | .act _ _, _, _, h => ⟨h.1.mono fun _ _ _ h' => h'.bind, fun e => neverReturns_bind (h.2 e)⟩

theorem Ends.sql {m : Sql α} {Q : α → DB → List FwCall → Prop}
    (h : m.Ends T (fun a db' => Q a db' calls) db) :
    Ends T (sql m) Q db calls := ⟨h, fun _ => trivial⟩

/-- `System.block` in a body. -/
theorem Ends.block {ports : List Int} {Q : Unit → DB → List FwCall → Prop}
    (h : Q () db (calls ++ blockCalls ports)) : Ends T (WebProxyPanel.block ports) Q db calls := by
  unfold WebProxyPanel.block
  unfold blockCalls at h
  split
  · rename_i hnil
    rw [if_pos hnil, List.append_nil] at h
    exact h
  · rename_i hne
    rw [if_neg hne] at h
    exact ⟨h, fun _ => trivial⟩

theorem Ends.unblock {ports : List Int} {Q : Unit → DB → List FwCall → Prop}
    (h : Q () db (calls ++ unblockCalls ports)) :
    Ends T (WebProxyPanel.unblock ports) Q db calls := by
  unfold WebProxyPanel.unblock
  unfold unblockCalls at h
  split
  · rename_i hnil
    rw [if_pos hnil, List.append_nil] at h
    exact h
  · rename_i hne
    rw [if_neg hne] at h
    exact ⟨h, fun _ => trivial⟩

theorem Ends.of_sql {m : Sql α} {f : α → P β} {Q : β → DB → List FwCall → Prop}
    (h : Ends T (WebProxyPanel.sql m >>= f) Q db calls) :
    m.Ends T (fun a db' => Ends T (f a) Q db' calls) db := h.1

theorem Ends.of_block {ports : List Int} {f : Unit → P β} {Q : β → DB → List FwCall → Prop}
    (h : Ends T ((WebProxyPanel.block ports).bind f) Q db calls) :
    Ends T (f ()) Q db (calls ++ blockCalls ports) := by
  unfold WebProxyPanel.block at h
  unfold blockCalls
  split at h
  · rename_i hnil
    rw [if_pos hnil, List.append_nil]
    exact h
  · rename_i hne
    rw [if_neg hne]
    exact h.1

theorem Ends.of_unblock {ports : List Int} {f : Unit → P β} {Q : β → DB → List FwCall → Prop}
    (h : Ends T ((WebProxyPanel.unblock ports).bind f) Q db calls) :
    Ends T (f ()) Q db (calls ++ unblockCalls ports) := by
  unfold WebProxyPanel.unblock at h
  unfold unblockCalls
  split at h
  · rename_i hnil
    rw [if_pos hnil, List.append_nil]
    exact h
  · rename_i hne
    rw [if_neg hne]
    exact h.1

theorem Ends.runIf {c : Prop} [Decidable c] {p : P Unit} {Q : Unit → DB → List FwCall → Prop}
    (hp : c → Ends T p Q db calls) (h : ¬ c → Q () db calls) :
    Ends T (Prog.runIf c p) Q db calls := by
  unfold Prog.runIf
  split
  · rename_i hc
    exact hp hc
  · rename_i hc
    exact h hc

/-- `_change` inside a transaction is its body. -/
theorem Ends.change {body : P α} {Q : α → DB → List FwCall → Prop} (h : Ends T body Q db calls) :
    Ends T (WebProxyPanel.change body) Q db calls := ⟨h, fun _ => trivial⟩

end Ends

/-! ## Runs -/

/-- The firewall calls of a record. -/
def firewallCalls (es : List Entry) : List FwCall :=
  es.filterMap fun e => match e.call with
    | .fwCall call => some call
    | _ => none

/-- In a transaction of its own that began on `D`. -/
structure Inside (D copy : DB) (calls : List FwCall) (w : World) (l : Own) : Prop where
  inTx : l.inTx = true
  db : w.db = D
  writer : ∃ tx, w.writer = some tx ∧ tx.copy = copy
  calls : firewallCalls l.trace = calls

/-- After a successful transaction that began on `D`. -/
def Done {α : Type} (Q : DB → α → DB → List FwCall → Prop) (D : DB) (before : List FwCall) (a : α)
    (w : World) (l : Own) : Prop :=
  l.inTx = false ∧ ∃ calls, Q D a w.db calls ∧ firewallCalls l.trace = before ++ calls

/-- Nothing is asked of the actions. -/
def free (_ : World) (_ : Own) {β : Type} (_ : Action β) : Prop := True

def Whatever (_ : Err) (_ : World) (_ : Own) : Prop := True

section Runs
variable {ok : Allow Action Choice State} {α : Type} {T : Int → Prop}

theorem firewallCalls_note (l : Own) (es : List Entry) :
    firewallCalls (l.note es).trace = firewallCalls l.trace ++ firewallCalls es := by
  simp [firewallCalls, Own.note]

theorem Safe.whatever {K : α → World → Own → Prop} {p : P α} (hp : p.NeverReturns) (w : World)
    (l : Own) : Safe sem ok alone free (post K Whatever) p w l :=
  Effects.Safe.never (fun _ _ _ _ => trivial) (fun _ _ _ => trivial) hp w l

/-- A body that runs inside its transaction. -/
theorem Ends.safe (hT : Clocked T ok) {Q : α → DB → List FwCall → Prop} {D : DB}
    {before : List FwCall} {p : P α} {copy : DB} {calls : List FwCall} {w : World} {l : Own}
    (h : Ends T p Q copy calls) (hin : Inside D copy (before ++ calls) w l) :
    Safe sem ok alone free
      (post (fun a w l => ∃ copy calls, Q a copy calls ∧ Inside D copy (before ++ calls) w l)
        Whatever) p w l := by
  induction p generalizing copy calls w l with
  | ret a =>
    rintro _ rfl
    exact ⟨copy, calls, h, hin⟩
  | raise e => exact fun _ _ => trivial
  | act a k ih =>
    rintro _ rfl
    refine ⟨trivial, fun r w₂ l₂ hn => ?_⟩
    cases r with
    | error e => exact Safe.whatever (h.2 e) _ _
    | ok b =>
      obtain ⟨hnext, -⟩ := h
      cases a with
      | sql m =>
        obtain ⟨tx, hw, rfl⟩ := hin.writer
        have htx : ownTx (w, l) = some tx := by simp [ownTx, hin.inTx, hw]
        rcases next_sql htx hn with ⟨inp, db', hok, -, rfl, rfl, ⟨a, hm, ha⟩ | ⟨e, -, he⟩⟩ |
            ⟨msg, gone, left, -, he, -⟩
        · obtain rfl := Except.ok.inj ha
          obtain ⟨hq, -⟩ := hnext inp b db' _ (hT inp _ _ hok) hm
          refine ih (.ok b) hq ⟨hin.inTx, hin.db, ⟨_, rfl, rfl⟩, ?_⟩
          rw [firewallCalls_note, hin.calls]
          exact List.append_nil _
        · simp at he
        · simp at he
      | fwCall call =>
        rcases next_fwCall hn with ⟨-, rfl, rfl⟩ | ⟨msg, done, -, he, -⟩
        · obtain ⟨tx, hw, hcopy⟩ := hin.writer
          refine ih (.ok ()) hnext ⟨hin.inTx, hin.db,
            ⟨{ tx with issued := tx.issued ++ [call], failed := tx.failed || false }, ?_, hcopy⟩,
            ?_⟩
          · simp [hw]
          · rw [firewallCalls_note, Own.called_trace, hin.calls, List.append_assoc]
            rfl
        · simp at he
      | inTransaction =>
        obtain ⟨hr, rfl, rfl⟩ := next_inTransaction hn
        rw [hin.inTx] at hr
        obtain rfl := Except.ok.inj hr
        exact ih (.ok true) hnext hin
      | _ => exact hnext.elim

theorem Ends.transaction (hT : Clocked T ok) {Q : DB → α → DB → List FwCall → Prop} {body : P α}
    (hbody : ∀ D, Ends T body (Q D) D []) {w : World} {l : Own} (hl : l.inTx = false) :
    Safe sem ok alone free (post (Done Q w.db (firewallCalls l.trace)) Whatever)
      (transaction body) w l := by
  refine safe_transaction (B := post (fun a w₁ l₁ => ∃ copy calls, Q w.db a copy calls ∧
      Inside w.db copy (firewallCalls l.trace ++ calls) w₁ l₁) Whatever) isRely_alone
      (fun _ _ => ⟨trivial, trivial⟩)
    (stable_alone _) (stable_alone _) hl (fun _ _ => ⟨trivial, fun _ _ _ => trivial⟩) ?_ ?_ ?_
  · rintro _ rfl -
    refine Ends.safe hT (hbody w.db) ⟨rfl, rfl, ⟨_, rfl, rfl⟩, ?_⟩
    rw [firewallCalls_note]
    rfl
  · rintro a w₁ l₁ ⟨copy, calls, hq, hin⟩
    obtain ⟨tx, hw, rfl⟩ := hin.writer
    have htx : ownTx (w₁, l₁) = some tx := by simp [ownTx, hin.inTx, hw]
    refine ⟨tx, htx, trivial, ⟨rfl, calls, hq, ?_⟩, fun _ _ _ => trivial, ?_⟩
    · rw [firewallCalls_note, hin.calls]
      exact List.append_nil _
    · rintro msg left _ - rfl
      exact ⟨tx, htx, trivial⟩
  · intro e w₁ l₁ _
    unfold RollsBack
    split <;> simp [post, Whatever]

/-- `_change` outside a transaction. -/
theorem Ends.safe_change (hT : Clocked T ok) {Q : DB → α → DB → List FwCall → Prop} {body : P α}
    (hbody : ∀ D, Ends T body (Q D) D []) {w : World} {l : Own} (hl : l.inTx = false) :
    Safe sem ok alone free (post (Done Q w.db (firewallCalls l.trace)) Whatever)
      (WebProxyPanel.change body) w l := by
  unfold WebProxyPanel.change
  simp only [Prog.bind_eq]
  refine Safe.callThen isRely_alone (stable_alone _) ?_
  rintro _ rfl
  refine ⟨trivial, fun r w₂ l₂ hn => ?_⟩
  obtain ⟨rfl, rfl, rfl⟩ := next_inTransaction hn
  simp only [thenSafe, hl, Bool.false_eq_true, if_false]
  refine Safe.callThen isRely_alone (stable_alone _) ?_
  rintro _ rfl
  refine ⟨trivial, fun r w₃ l₃ hn => ?_⟩
  obtain ⟨rfl, rfl, rfl⟩ := next_firewallCalls hn
  simp only [thenSafe]
  refine Safe.handle isRely_alone (E := Whatever) ((Ends.transaction hT hbody hl).mono ?_)
    fun e w₁ l₁ _ => ?_
  · rintro (e | a) w₁ l₁ hq
    · trivial
    · exact hq
  · refine Safe.whatever ?_ w₁ l₁
    refine Prog.NeverReturns.bind (fun calls => Prog.NeverReturns.bind (fun _ => ?_) _) _
    exact trivial

end Runs

end WebProxyPanel
