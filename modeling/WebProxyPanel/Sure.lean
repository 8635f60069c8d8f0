import WebProxyPanel.Filled
/-!
# What cannot raise

Statements and the bodies of `_change` that come to an exception only through a failure from
outside: without one they return, whatever the clock shows.

* `Sql.Sure m Q db` — run on `db`, the statements `m` never raise, and leave `Q`; inputs with any
  one reading of the clock suffice.
* `Sure p Q db` — the same for a body whose actions succeed; `Sure.returns` and `Sure.exists_run`
  for the operation around it.
-/

namespace WebProxyPanel
open Effects Users

/-! ## Statements -/

namespace Sql
variable {α β : Type} {db : DB}

structure Sure (m : Sql α) (Q : α → DB → Prop) (db : DB) : Prop where
  ends : ∀ inp, match m db inp with
    | .ok a db' _ => Q a db'
    | .error _ _ _ => False
    | .starved => True
  /-- Further inputs are not looked at. -/
  fed : ∀ t, ∃ ts, (∀ x ∈ ts, x = t) ∧ ∃ a db', ∀ ext,
    m db (Inputs.append ⟨ts, []⟩ ext) = .ok a db' ext

theorem Sure.ok {m : Sql α} {Q : α → DB → Prop} (h : m.Sure Q db) {inp inp' : Inputs} {a : α}
    {db' : DB} (hm : m db inp = .ok a db' inp') : Q a db' := by
  have := h.ends inp
  rw [hm] at this
  exact this

theorem Sure.ne_error {m : Sql α} {Q : α → DB → Prop} (h : m.Sure Q db) {inp inp' : Inputs}
    {e : Err} {db' : DB} : m db inp ≠ .error e db' inp' := by
  intro hm
  have := h.ends inp
  rw [hm] at this
  exact this

theorem Sure.mono {m : Sql α} {Q Q' : α → DB → Prop} (h : m.Sure Q db)
    (hQ : ∀ a db', Q a db' → Q' a db') : m.Sure Q' db := by
  refine ⟨fun inp => ?_, h.fed⟩
  cases hm : m db inp with
  | ok a db' inp' => exact hQ a db' (h.ok hm)
  | error e db' inp' => exact h.ne_error hm
  | starved => trivial

theorem Sure.pure {a : α} {Q : α → DB → Prop} (h : Q a db) : (Pure.pure a : Sql α).Sure Q db :=
  ⟨fun _ => h, fun _ => ⟨[], by simp, a, db, fun _ => rfl⟩⟩

theorem Sure.query {f : DB → α} {Q : α → DB → Prop} (h : Q (f db) db) : (Sql.query f).Sure Q db :=
  ⟨fun _ => h, fun _ => ⟨[], by simp, f db, db, fun _ => rfl⟩⟩

theorem Sure.orRaise {o : Option α} {e : Err} {a : α} {Q : α → DB → Prop} (ho : o = some a)
    (h : Q a db) : (Sql.orRaise o e).Sure Q db := by
  subst ho
  exact Sure.pure h

theorem Sure.execute {f : DB → DB} {Q : Unit → DB → Prop} (hc : (f db).Consistent)
    (h : Q () (f db)) : (Sql.execute f).Sure Q db := by
  refine ⟨fun inp => ?_, fun _ => ⟨[], by simp, (), f db, fun _ => execute_eq_ok.2 ⟨hc, rfl, rfl⟩⟩⟩
  simp only [Sql.execute, hc, if_true]
  exact h

theorem Sure.now {Q : Int → DB → Prop} (h : ∀ t, Q t db) : Sql.now.Sure Q db := by
  refine ⟨?_, fun t => ⟨[t], by simp, t, db, fun _ => rfl⟩⟩
  rintro ⟨_ | ⟨t, ts⟩, vs⟩
  · trivial
  · exact h t

theorem Sure.bind {m : Sql α} {f : α → Sql β} {Q : β → DB → Prop}
    (h : m.Sure (fun a db' => (f a).Sure Q db') db) : (m >>= f).Sure Q db := by
  refine ⟨fun inp => ?_, fun t => ?_⟩
  · rw [bind_run]
    cases hm : m db inp with
    | ok a db₁ inp₁ => exact (h.ok hm).ends inp₁
    | error e db₁ inp₁ => exact h.ne_error hm
    | starved => trivial
  · obtain ⟨ts, hts, a, db₁, hm⟩ := h.fed t
    obtain ⟨ts', hts', b, db₂, hf⟩ := (h.ok (hm .empty)).fed t
    refine ⟨ts ++ ts', fun x hx => ?_, b, db₂, fun ext => ?_⟩
    · rcases List.mem_append.1 hx with hx | hx
      · exact hts x hx
      · exact hts' x hx
    · have happend : Inputs.append ⟨ts ++ ts', []⟩ ext =
          Inputs.append ⟨ts, []⟩ (Inputs.append ⟨ts', []⟩ ext) := by
        simp [Inputs.append]
      rw [happend]
      exact bind_eq_ok.2 ⟨a, db₁, _, hm _, hf ext⟩

end Sql

/-! ## Bodies -/

def actSure {β : Type} (a : Action β) (next : β → DB → Prop) (db : DB) : Prop :=
  match a with
  | .sql m => m.Sure next db
  | .fwCall _ => next () db
  | .inTransaction => next true db
  | _ => False

def Sure {α : Type} : P α → (α → DB → Prop) → DB → Prop
  | .ret a, Q, db => Q a db
  | .raise _, _, _ => False
  | .act a k, Q, db => actSure a (fun b db => Sure (k (.ok b)) Q db) db

section Sure
variable {α β : Type} {db : DB}

theorem actSure.mono {a : Action β} {next next' : β → DB → Prop} (h : actSure a next db)
    (hn : ∀ b db, next b db → next' b db) : actSure a next' db := by
  cases a with
  | sql m => exact Sql.Sure.mono h hn
  | fwCall call => exact hn _ _ h
  | inTransaction => exact hn _ _ h
  | _ => exact h

theorem Sure.bind {f : α → P β} {Q : β → DB → Prop} :
    ∀ {p : P α} {db : DB}, Sure p (fun a db => Sure (f a) Q db) db →
    Sure (p.bind f) Q db
  | .ret _, _, h => h
  | .raise _, _, h => h.elim
  | .act _ _, _, h => actSure.mono h fun _ _ h' => Sure.bind h'

theorem Sure.sql {m : Sql α} {Q : α → DB → Prop} (h : m.Sure Q db) :
    Sure (WebProxyPanel.sql m) Q db := h

theorem Sure.unblock {ports : List Int} {Q : Unit → DB → Prop} (h : Q () db) :
    Sure (WebProxyPanel.unblock ports) Q db := by
  unfold WebProxyPanel.unblock
  split
  · exact h
  · exact h

theorem Sure.runIf {c : Prop} [Decidable c] {p : P Unit} {Q : Unit → DB → Prop}
    (hp : c → Sure p Q db) (h : ¬ c → Q () db) : Sure (Prog.runIf c p) Q db := by
  unfold Prog.runIf
  split
  · rename_i hc
    exact hp hc
  · rename_i hc
    exact h hc

/-- `_change` inside a transaction is its body. -/
theorem Sure.change {body : P α} {Q : α → DB → Prop} (h : Sure body Q db) :
    Sure (WebProxyPanel.change body) Q db := h

end Sure

/-! ## Runs -/

/-- The values that the clock shows. -/
def Choice.readings : Choice → List Int
  | .inputs inp => inp.times
  | .time t => [t]
  | _ => []

/-- Nothing fails, and a clock that shows `t` throughout is possible. -/
structure FaultFree (ok : Allow Action Choice State) (t : Int) : Prop where
  result : ∀ c {β : Type} (a : Action β) s, ok c a s → c.result = .ok
  allows : ∀ c {β : Type} (a : Action β) s, c.result = .ok → (∀ x ∈ c.readings, x = t) → ok c a s

theorem faultFree_noFault : FaultFree noFault 0 := ⟨fun _ _ _ _ h => h, fun _ _ _ _ hc _ => hc⟩

/-- Some choice is possible. -/
def able (ok : Allow Action Choice State) (w : World) (l : Own) {β : Type} (a : Action β) : Prop :=
  ∃ r w' l', sem.Next ok (w, l) a r (w', l')

section Runs
variable {ok : Allow Action Choice State} {t : Int} {α β : Type} {w : World} {l : Own}

theorem FaultFree.not_fail (h : FaultFree ok t) {c : Choice} {a : Action β} {s : State}
    (hc : c.result ≠ .ok) : ¬ ok c a s :=
  fun hok => hc (h.result c a s hok)

theorem FaultFree.able (h : FaultFree ok t) {a : Action β} (c : Choice) (hc : c.result = .ok)
    (ht : ∀ x ∈ c.readings, x = t) (hr : (respond c a (w, l)).isSome = true) : able ok w l a := by
  obtain ⟨⟨r, w', l'⟩, hr⟩ := Option.isSome_iff_exists.1 hr
  refine ⟨r, w', l'.note (entries c a), c, h.allows c a _ hc ht, ?_⟩
  show (respond c a (w, l)).map _ = _
  rw [hr]
  rfl

theorem FaultFree.able_ok (h : FaultFree ok t) {a : Action β}
    (hr : (respond .ok a (w, l)).isSome = true) : WebProxyPanel.able ok w l a :=
  h.able .ok rfl (by simp [Choice.readings]) hr

theorem FaultFree.able_rollback (h : FaultFree ok t) : WebProxyPanel.able ok w l .rollback := by
  refine h.able_ok ?_
  cases htx : ownTx (w, l) <;> simp [respond, htx]

/-- A body that runs inside its transaction. -/
theorem Sure.safe (hok : FaultFree ok t) {p : P α} {Q : α → DB → Prop} {copy : DB}
    (h : Sure p Q copy) (hin : l.inTx = true) (hw : ∃ tx, w.writer = some tx ∧ tx.copy = copy) :
    Safe sem ok alone (able ok) (post (fun _ w l => ∃ tx, ownTx (w, l) = some tx) fun _ _ _ =>
      False) p w l := by
  induction p generalizing copy w l with
  | ret a =>
    rintro _ rfl
    obtain ⟨tx, hw, -⟩ := hw
    exact ⟨tx, by simp [ownTx, hin, hw]⟩
  | raise e => exact h.elim
  | act a k ih =>
    rintro _ rfl
    obtain ⟨tx, hw, rfl⟩ := hw
    have htx : ownTx (w, l) = some tx := by simp [ownTx, hin, hw]
    cases a with
    | sql m =>
      refine ⟨?_, fun r w₂ l₂ hn => ?_⟩
      · obtain ⟨ts, hts, a, db', hm⟩ := Sql.Sure.fed h t
        have hm := hm .empty
        simp only [Inputs.append, Inputs.empty, List.append_nil] at hm
        exact hok.able (.inputs ⟨ts, []⟩) rfl hts (by simp [respond, htx, runSql, hm])
      · rcases next_sql htx hn with ⟨inp, db', -, -, rfl, rfl, ⟨a, hm, rfl⟩ | ⟨e, hm, -⟩⟩ |
            ⟨msg, gone, left, hfail, -⟩
        · exact ih (.ok a) (Sql.Sure.ok h hm) hin ⟨_, rfl, rfl⟩
        · exact absurd hm (Sql.Sure.ne_error h)
        · exact absurd hfail (hok.not_fail (by simp [Choice.result]))
    | fwCall call =>
      refine ⟨hok.able_ok rfl, fun r w₂ l₂ hn => ?_⟩
      rcases next_fwCall hn with ⟨rfl, rfl, rfl⟩ | ⟨msg, done, hfail, -⟩
      · refine ih (.ok ()) h hin
          ⟨{ tx with issued := tx.issued ++ [call], failed := tx.failed || false }, ?_, rfl⟩
        simp [hw]
      · exact absurd hfail (hok.not_fail (by simp [Choice.result]))
    | inTransaction =>
      refine ⟨hok.able_ok rfl, fun r w₂ l₂ hn => ?_⟩
      obtain ⟨hr, rfl, rfl⟩ := next_inTransaction hn
      rw [hin] at hr
      subst hr
      exact ih (.ok true) h hin ⟨tx, hw, rfl⟩
    | _ => exact h.elim

theorem Sure.transaction (hok : FaultFree ok t) {body : P α} {Q : α → DB → Prop}
    (h : Sure body Q w.db) (hw : w.writer = none) (hl : l.inTx = false) :
    Safe sem ok alone (able ok) (post (fun _ _ _ => True) fun _ _ _ => False)
      (WebProxyPanel.transaction body) w l := by
  refine safe_transaction (B := post (fun _ w l => ∃ tx, ownTx (w, l) = some tx) fun _ _ _ => False)
    isRely_alone
    (fun _ _ => ⟨hok.able_ok rfl, hok.able_rollback⟩) (stable_alone _) (stable_alone _)
    hl ?_ ?_ ?_ ?_
  · rintro _ rfl
    refine ⟨hok.able_ok (by simp [respond, hw]), fun msg done hfail => ?_⟩
    exact absurd hfail (hok.not_fail (by simp [Choice.result]))
  · rintro _ rfl -
    exact Sure.safe hok h rfl ⟨_, rfl, rfl⟩
  · rintro a w₁ l₁ ⟨tx, htx⟩
    refine ⟨tx, htx, hok.able_ok (by simp [respond, htx]), trivial, fun msg left hfail => ?_,
      fun msg left _ hfail => ?_⟩
    · exact hok.not_fail (by simp [Choice.result]) hfail
    · exact absurd hfail (hok.not_fail (by simp [Choice.result]))
  · exact fun _ _ _ h => h.elim

/-- An operation outside a transaction whose body cannot raise. -/
theorem Sure.safe_change (hok : FaultFree ok t) {body : P α} {Q : α → DB → Prop}
    (h : Sure body Q w.db) (hw : w.writer = none) (hl : l.inTx = false) :
    Safe sem ok alone (able ok) (post (fun _ _ _ => True) fun _ _ _ => False)
      (WebProxyPanel.change body) w l := by
  unfold WebProxyPanel.change
  refine Safe.callThen isRely_alone (stable_alone _) ?_
  rintro _ rfl
  refine ⟨hok.able_ok rfl, fun r w₂ l₂ hn => ?_⟩
  obtain ⟨rfl, rfl, rfl⟩ := next_inTransaction hn
  simp only [thenSafe, hl, Bool.false_eq_true, if_false]
  refine Safe.callThen isRely_alone (stable_alone _) ?_
  rintro _ rfl
  refine ⟨hok.able_ok rfl, fun r w₃ l₃ hn => ?_⟩
  obtain ⟨rfl, rfl, rfl⟩ := next_firewallCalls hn
  exact Safe.handle isRely_alone (E := fun _ _ _ => False) (Sure.transaction hok h hw hl) fun _
    _ _ h => h.elim

/-- Without a failure it returns. -/
theorem Sure.returns (hok : FaultFree ok t) {body : P α} {Q : α → DB → Prop} (h : Sure body Q w.db)
    (hw : w.writer = none) (hl : l.inTx = false) {out : Except Err α} {s : State}
    (hrun : sem.Runs ok (WebProxyPanel.change body) (w, l) out s) : ∃ a, out = .ok a := by
  have hend := Safe.runs isRely_alone (Sure.safe_change hok h hw hl) hrun
  cases out with
  | ok a => exact ⟨a, rfl⟩
  | error e => exact hend.elim

/-- It comes to an end, whatever the clock shows. -/
theorem Sure.exists_run (hok : FaultFree ok t) {body : P α} {Q : α → DB → Prop}
    (h : Sure body Q w.db) (hw : w.writer = none) (hl : l.inTx = false) :
    ∃ a s, sem.Runs ok (WebProxyPanel.change body) (w, l) (.ok a) s := by
  obtain ⟨out, s, hrun⟩ :=
    Safe.complete isRely_alone (fun _ _ _ _ hg => hg) (Sure.safe_change hok h hw hl)
  obtain ⟨a, rfl⟩ := Sure.returns hok h hw hl hrun
  exact ⟨a, s, hrun⟩

end Runs

/-! ## The statements of `extend` -/

section Rows
variable {db : DB}

theorem sure_user {u : User} (hc : db.Consistent) (hu : u ∈ db.users) {Q : User → DB → Prop}
    (h : Q u db) : (user u.id).Sure Q db := by
  have hfind : db.users.find? (fun v => decide (v.id = u.id)) = some u := by
    obtain ⟨v, hv⟩ := Option.isSome_iff_exists.1
        (List.find?_isSome (p := fun v : User => decide (v.id = u.id)) |>.2 ⟨u, hu, by simp⟩)
    have hid : v.id = u.id := by simpa using List.find?_some hv
    rw [hv, Table.eq_of_key hc.userId (List.mem_of_find?_eq_some hv) hu hid]
  exact Sql.Sure.bind (Sql.Sure.query (Sql.Sure.orRaise hfind h))

theorem sure_logEvent (hc : db.Consistent) {kind : String} {userId : Option Int} {details : String}
    {Q : Unit → DB → Prop} (h : ∀ ts, Q () (DB.addEvent ts kind userId details db)) :
    (logEvent kind userId details).Sure Q db :=
  Sql.Sure.bind (Sql.Sure.now fun ts =>
    Sql.Sure.execute (hc.addEvent ts kind userId details) (h ts))

/-- `_maybe_reenable` of a user who is there. -/
theorem sure_maybeReenable {u : User} (hc : db.Consistent) (hu : u ∈ db.users) (reason : Reason)
    {Q : Unit → DB → Prop} (h : ∀ db', Q () db') : Sure (maybeReenable u.id reason) Q db := by
  refine Sure.bind (Sure.sql (Sql.Sure.bind (sure_user hc hu ?_)))
  split
  · exact Sql.Sure.pure (h _)
  refine Sql.Sure.bind (Sql.Sure.now fun t => ?_)
  split
  · exact Sql.Sure.pure (h _)
  have hc' := consistent_updateUser hc u.id (f := setEnabled) (fun _ => rfl) fun _ => rfl
  refine Sql.Sure.bind (Sql.Sure.execute hc' (Sql.Sure.bind (sure_logEvent hc' fun ts => ?_)))
  exact Sql.Sure.bind (Sql.Sure.query (Sql.Sure.pure (Sure.unblock (h _))))

theorem sure_extend {u : User} (hc : db.Consistent) (hu : u ∈ db.users) (days : Int)
    (enableNow : Bool) :
    Sure (do
      let expiresAt ← sql (extendRows u.id days)
      setExpiry u.id (some expiresAt) enableNow
      pure expiresAt) (fun _ _ => True) db := by
  refine Sure.bind (Sure.sql
    (Sql.Sure.bind (sure_user hc hu (Sql.Sure.bind (Sql.Sure.now fun t => Sql.Sure.pure ?_)))))
  generalize max t (u.expiresAt.getD 0) + days * day = e
  have hc' := consistent_updateUser hc u.id (f := withExpiry (some e)) (fun _ => rfl) fun _ => rfl
  have hu' : withExpiry (some e) u ∈ (updateUser u.id (withExpiry (some e)) db).users := by
    refine Table.mem_update.2 ⟨u, hu, ?_⟩
    rw [if_pos (decide_eq_true rfl)]
  refine Sure.bind (Sure.change (Sure.bind (Sure.sql (Sql.Sure.bind (sure_user hc hu ?_)))))
  refine Sql.Sure.bind (Sql.Sure.execute hc' (sure_logEvent hc' fun ts => ?_))
  have hc'' := hc'.addEvent ts "user_expiry_set" (some u.id)
      ("expires_at=" ++ orText (some e) "never")
  exact Sure.runIf (fun _ => sure_maybeReenable (u := withExpiry (some e) u) hc'' hu' .expired
    fun _ => trivial) fun _ => trivial

end Rows

end WebProxyPanel
