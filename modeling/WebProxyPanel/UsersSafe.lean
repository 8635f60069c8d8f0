import WebProxyPanel.Rules
import WebProxyPanel.UsersSpec
/-!
# User operations are safe

Every operation of users.py keeps the guard at each of its steps, whatever fails and whatever the
other processes do, and ends with nothing open. One that raises, in a run of its own, leaves the
database as it found it. `safe_change` is the argument for `_change`; the operations only supply
their statements.
-/

namespace WebProxyPanel
open Effects

section Change
variable {ok : Allow Action Choice State} {m : Mode} {α β : Type}

/-- A user operation has ended. -/
def UserPost (ok : Allow Action Choice State) (m : Mode) (D₀ : DB) :
    Except Err α → World → Own → Prop :=
  post (fun _ => Ready ok) fun _ w l => Ready ok w l ∧ (m.solo = true → w.db = D₀)

/-- The body of its transaction has ended, after firewall calls of the kind `C`. -/
def BodyDone (ok : Allow Action Choice State) (m : Mode) (D : DB) (n : Nat)
    (C : List FwCall → Prop) : Except Err α → World → Own → Prop :=
  post (fun _ w l => ∃ copy calls, C calls ∧ InTx ok false D n copy calls w l ∧
    UserStep m.moves D calls copy) fun _ w l => ∃ calls, C calls ∧ Broken ok m false D n calls w l

/-- Its transaction had no effect; unless it made firewall calls, there is nothing to recover. -/
structure Undone (ok : Allow Action Choice State) (m : Mode) (D₀ : DB) (n : Nat)
    (calls : List FwCall) (w : World) (l : Own) : Prop where
  inTx : l.inTx = false
  locked : l.locked = false
  world : WorldOk w
  db : m.solo = true → w.db = D₀
  counter : l.firewallCalls = n + calls.length
  clean : calls = [] → Clean ok l

theorem Undone.others {D₀ : DB} {n : Nat} {calls : List FwCall} {w w' : World} {l : Own}
    (h : Undone ok m D₀ n calls w l) (ho : others m l w w') : Undone ok m D₀ n calls w' l :=
  { h with
    world := h.world.others ho
    db := fun hs => by rw [ho.1 hs]; exact h.db hs }

theorem stable_userPost {D₀ : DB} : StableQ (others m) (UserPost (α := α) ok m D₀) :=
  StableQ.post (fun _ _ _ _ ho h => h.others ho) fun _ _ _ _ ho h =>
    ⟨h.1.others ho, fun hs => by rw [ho.1 hs]; exact h.2 hs⟩

theorem stable_bodyDone {D : DB} {n : Nat} {C : List FwCall → Prop} :
    StableQ (others m) (BodyDone (α := α) ok m D n C) :=
  StableQ.post (fun _ _ _ _ ho ⟨copy, calls, hc, h, hs⟩ => ⟨copy, calls, hc, h.others ho, hs⟩)
    fun _ _ _ _ ho ⟨calls, hc, h⟩ => ⟨calls, hc, h.others ho⟩

theorem WorldOk.commit {w : World} {l : Own} {tx : Tx} (h : WorldOk w)
    (hc : CommitOk m.moves l w tx) :
    WorldOk (w.commit tx) := ⟨hc.inv, hc.files h.2⟩

/-- A transaction around the statements and firewall calls of a user operation. -/
theorem safe_userTransaction {w : World} {l : Own} (h : Ready ok w l) (C : List FwCall → Prop)
    {body : P α}
    (hbody : ∀ D w₁ l₁, Inv D → (m.solo = true → D = w.db) →
      InTx ok false D l.firewallCalls D [] w₁ l₁ →
        Safe sem ok (others m) (guard m) (BodyDone ok m D l.firewallCalls C) body w₁ l₁)
    (hC : C []) :
    Safe sem ok (others m) (guard m)
      (post (fun _ => Ready ok) fun _ w₁ l₁ => ∃ calls, C calls ∧
        Undone ok m w.db l.firewallCalls calls w₁ l₁)
      (transaction body) w l := by
  refine safe_transaction (isRely_others m) (fun _ _ => ⟨trivial, trivial⟩)
    (B := fun out w₁ l₁ => ∃ D, (m.solo = true → D = w.db) ∧
      BodyDone ok m D l.firewallCalls C out w₁ l₁)
    (fun out w l w₁ ho ⟨D, hD, hb⟩ => ⟨D, hD, stable_bodyDone _ _ _ _ ho hb⟩)
    (StableQ.post (fun _ _ _ _ ho h => h.others ho) fun _ _ _ _ ho ⟨calls, hc, h⟩ =>
      ⟨calls, hc, h.others ho⟩)
    h.inTx ?_ ?_ ?_ ?_
  · intro w₁ h₁
    have hr := h.others h₁
    exact ⟨h.inTx, fun msg done _ =>
      ⟨[], hC, hr.inTx, hr.locked, hr.world, fun hs => by rw [h₁.1 hs], rfl, fun _ => hr.clean⟩⟩
  · intro w₁ h₁ _
    have hr := h.others h₁
    refine (hbody w₁.db _ _ hr.world.1 (fun hs => by rw [h₁.1 hs]) ?_).mono fun out w₂ l₂ hb =>
      ⟨w₁.db, fun hs => by rw [h₁.1 hs], hb⟩
    exact { inTx := rfl, locked := hr.locked, clean := hr.clean, world := hr.world, db := rfl, writer := ⟨[], rfl⟩,
            counter := rfl }
  · rintro a w₁ l₁ ⟨D, hD, copy, calls, hcalls, hin, hstep⟩
    obtain ⟨drawn, htx⟩ := hin.ownTx
    have hc : CommitOk m.moves l₁ w₁ ⟨copy, calls, false, drawn⟩ := by
      refine .user hin.locked rfl ?_
      rw [hin.db]
      exact hstep
    refine ⟨_, htx, ⟨_, htx, hc⟩, ⟨rfl, hin.locked, hin.clean, hin.world.commit hc⟩, ?_, ?_⟩
    · intro msg left _
      exact ⟨calls, hcalls, rfl, hin.locked, hin.world, fun hs => hin.db.trans (hD hs), hin.counter,
        fun h => hin.clean.rolledBack h⟩
    · intro msg left w₂ _ ho
      have hin₂ : InTx ok false D l.firewallCalls copy calls w₂ l₁ := hin.others ho.of_note
      obtain ⟨drawn₂, htx₂⟩ := hin₂.ownTx
      exact ⟨_, htx₂, calls, hcalls, rfl, hin₂.locked, hin₂.world, fun hs =>
        hin₂.db.trans (hD hs), hin₂.counter, fun h => hin₂.clean.rolledBack h⟩
  · rintro e w₁ l₁ ⟨D, hD, calls, hcalls, hb⟩
    have hdb : m.solo = true → w₁.db = w.db := fun hs => (hb.db hs).trans (hD hs)
    unfold RollsBack ownTx
    cases hin : l₁.inTx with
    | true =>
      obtain ⟨hclean, tx, htx, rfl⟩ := hb.inside hin
      simp only [htx, if_true]
      exact ⟨tx.issued, hcalls, rfl, hb.locked, hb.world, hdb, hb.counter, hclean.rolledBack⟩
    | false =>
      exact fun e' => ⟨calls, hcalls, hin, hb.locked, hb.world, hdb, hb.counter, hb.outside hin⟩

/-- Firewall calls of any kind, or none. -/
def anyCalls (_ : List FwCall) : Prop := True
def noCalls (calls : List FwCall) : Prop := calls = []

/-- `_change`: after an exception with firewall calls in between, the table is rebuilt. -/
theorem safe_change {w : World} {l : Own} (h : Ready ok w l) {body : P α}
    (hbody : ∀ D w₁ l₁, Inv D → (m.solo = true → D = w.db) →
      InTx ok false D l.firewallCalls D [] w₁ l₁ →
        Safe sem ok (others m) (guard m) (BodyDone ok m D l.firewallCalls anyCalls) body w₁ l₁) :
    Safe sem ok (others m) (guard m) (UserPost ok m w.db) (change body) w l := by
  have hR := isRely_others m
  have hQ : StableQ (others m) (UserPost (α := α) ok m w.db) := stable_userPost
  unfold change
  simp only [Prog.bind_eq]
  refine Safe.callThen hR hQ fun w₁ h₁ => ⟨trivial, fun r w₂ l₂ hn => ?_⟩
  obtain ⟨rfl, rfl, rfl⟩ := next_inTransaction hn
  simp only [thenSafe, h.inTx, Bool.false_eq_true, if_false]
  refine Safe.callThen hR hQ fun w₃ h₃ => ⟨trivial, fun r w₄ l₄ hn => ?_⟩
  obtain ⟨rfl, rfl, rfl⟩ := next_firewallCalls hn
  have ho := hR.trans h₁ h₃
  simp only [thenSafe]
  refine Safe.handle hR (E := fun _ w₅ l₅ => ∃ calls, Undone ok m w.db l₄.firewallCalls calls w₅ l₅)
    ((safe_userTransaction (h.others ho) anyCalls (fun D w₁ l₁ hD hs hin => hbody D w₁ l₁ hD ?_ hin)
      trivial).mono ?_) ?_
  · exact fun hsolo => by rw [hs hsolo, ho.1 hsolo]
  · rintro (e | a) w₅ l₅ hq
    · obtain ⟨calls, -, hq⟩ := hq
      exact ⟨calls, { hq with db := fun hs => by rw [hq.db hs, ho.1 hs] }⟩
    · exact hq
  · rintro e w₅ l₅ ⟨made, hu⟩
    refine Safe.callThen hR hQ fun w₆ h₆ => ⟨trivial, fun r w₇ l₇ hn => ?_⟩
    obtain ⟨rfl, rfl, rfl⟩ := next_firewallCalls hn
    have hu := hu.others h₆
    simp only [thenSafe, Prog.runIf]
    by_cases hcalls : l₇.firewallCalls = l₄.firewallCalls
    · rw [if_neg (not_not.2 hcalls), Prog.ret_bind]
      have hmade : made = [] := by
        have hc := hu.counter
        exact List.eq_nil_of_length_eq_zero (by omega)
      exact Safe.raiseStable hQ ⟨⟨hu.inTx, hu.locked, hu.clean hmade, hu.world⟩, hu.db⟩
    · rw [if_pos hcalls]
      have hown : ownTx (w₇, l₇) = none := by simp [ownTx, hu.inTx]
      refine Safe.seq hR (K := fun _ w₈ l₈ => Ready ok w₈ l₈ ∧ (m.solo = true → w₈.db = w.db)) ?_
        fun _ w₈ l₈ hk => Safe.raiseStable hQ hk
      have hdb : ∀ {w₈}, Since m l₇ w₇ w₈ → m.solo = true → w₈.db = w.db := fun hs hsolo =>
        (hs.solo hsolo).1.trans (hu.db hsolo)
      refine Safe.handle hR (E := fun _ w₈ l₈ => Ready ok w₈ l₈ ∧ (m.solo = true → w₈.db = w.db))
        ((safe_sync hu.world (by simp [hu.inTx]) (by rw [hown]; simp)).mono ?_) fun _ w₈ l₈ hk =>
        Safe.ret fun w₉ h₉ =>
          ⟨hk.1.others h₉, fun hs => by rw [h₉.1 hs]; exact hk.2 hs⟩
      rintro (e' | a) w₈ l₈ hq
      · obtain ⟨hs, ⟨es, rfl⟩, hc⟩ := hq
        exact ⟨⟨hu.inTx, hu.locked, hc, hs.ok hu.world⟩, hdb hs⟩
      · obtain ⟨hs, es, rfl⟩ := hq
        exact ⟨⟨hu.inTx, hu.locked, fun _ => rfl, hs.ok hu.world⟩, hdb hs⟩

/-- `transaction` without firewall calls: there is nothing to recover. -/
theorem safe_plainTransaction {w : World} {l : Own} (h : Ready ok w l) {s : Sql α}
    (hs : ∀ D, Inv D → s.wp (fun v => isTokenHex v = true)
      (fun _ db' => UserStep m.moves D [] db') D) :
    Safe sem ok (others m) (guard m) (UserPost ok m w.db) (transaction (sql s)) w l := by
  refine (safe_userTransaction h noCalls (fun D w₁ l₁ hD _ hin => ?_) rfl).mono ?_
  · refine (safe_sql hin (hs D hD)).mono ?_
    rintro (e | a) w₂ l₂ hq
    · exact ⟨[], rfl, hq⟩
    · obtain ⟨copy, hin, hstep⟩ := hq
      exact ⟨copy, [], rfl, hin, hstep⟩
  · rintro (e | a) w₂ l₂ hq
    · obtain ⟨calls, hc, hu⟩ := hq
      exact ⟨⟨hu.inTx, hu.locked, hu.clean hc, hu.world⟩, hu.db⟩
    · exact hq

/-- The last step of a body. -/
theorem bodyDone_of_post {D : DB} {n : Nat} {calls : List FwCall} {out : Except Err α} {w : World}
    {l : Own}
    (h : BodyPost ok m false D n calls (fun _ copy => UserStep m.moves D calls copy) out w l) :
    BodyDone ok m D n anyCalls out w l := by
  cases out with
  | ok a =>
    obtain ⟨copy, hin, hstep⟩ := h
    exact ⟨copy, calls, trivial, hin, hstep⟩
  | error e => exact ⟨calls, trivial, h⟩

theorem safe_done {D copy : DB} {n : Nat} {calls : List FwCall} {w : World} {l : Own} {a : α}
    (h : InTx ok false D n copy calls w l) (hs : UserStep m.moves D calls copy) :
    Safe sem ok (others m) (guard m) (BodyDone ok m D n anyCalls) (.ret a) w l :=
  Safe.retStable stable_bodyDone ⟨copy, calls, trivial, h, hs⟩

/-- A step of a body, and the rest of it. -/
theorem safe_step {D : DB} {n : Nat} {calls : List FwCall} {K : α → DB → Prop} {p : P α}
    {f : α → P β} {w : World} {l : Own}
    (hp : Safe sem ok (others m) (guard m) (BodyPost ok m false D n calls K) p w l)
    (hf : ∀ a copy w l, InTx ok false D n copy calls w l → K a copy →
      Safe sem ok (others m) (guard m) (BodyDone ok m D n anyCalls) (f a) w l) :
    Safe sem ok (others m) (guard m) (BodyDone ok m D n anyCalls) (p.bind f) w l :=
  safe_then (fun _ calls _ _ hb => ⟨calls, trivial, hb⟩) hp hf

/-- What an operation needs of the world before it. -/
theorem userPost_of_others {w w₁ : World} {l₀ : Own} (ho : others m l₀ w w₁) {out : Except Err α}
    {w' : World} {l : Own} (h : UserPost ok m w₁.db out w' l) : UserPost ok m w.db out w' l := by
  cases out with
  | ok a => exact h
  | error e => exact ⟨h.1, fun hs => by rw [h.2 hs, ho.1 hs]⟩

/-- Nested `_change`: the body joins the transaction around it. -/
theorem safe_nestedChange {Q : Except Err α → World → Own → Prop} (hQ : StableQ (others m) Q)
    {D copy : DB} {n : Nat} {calls : List FwCall} {body : P α} {w : World} {l : Own}
    (h : InTx ok false D n copy calls w l)

    (hbody : ∀ w₁, InTx ok false D n copy calls w₁ l → Safe sem ok (others m) (guard m) Q body w₁ l) :
    Safe sem ok (others m) (guard m) Q (change body) w l := by
  unfold change
  simp only [Prog.bind_eq]
  refine Safe.callThen (isRely_others m) hQ fun w₁ h₁ => ⟨trivial, fun r w₂ l₂ hn => ?_⟩
  obtain ⟨rfl, rfl, rfl⟩ := next_inTransaction hn
  simp only [thenSafe, h.inTx, if_true]
  exact hbody w₂ (h.others h₁)

end Change

/-! ## The operations -/

namespace Users
variable {ok : Allow Action Choice State} {m : Mode} {w : World} {l : Own}

theorem safe_raised {α : Type} (h : Ready ok w l) (e : Err) :
    Safe sem ok (others m) (guard m) (UserPost (α := α) ok m w.db) (.raise e) w l :=
  Safe.raiseStable stable_userPost ⟨h, fun _ => rfl⟩

theorem safe_createUser (h : Ready ok w l) (hopens : m.opens = true) (a : NewUser) :
    Safe sem ok (others m) (guard m) (UserPost ok m w.db) (createUser a) w l := by
  unfold createUser
  simp only [Prog.bind_eq]
  cases a.check with
  | error e => exact safe_raised h e
  | ok x =>
    obtain ⟨name, createdBy, reset⟩ := x
    refine Safe.callThen (isRely_others m) stable_userPost fun w₁ h₁ =>
      ⟨trivial, fun r w₂ l₂ hn => ?_⟩
    obtain ⟨⟨timestamp, rfl⟩, rfl, rfl⟩ := next_now hn
    have hr : Ready ok w₂ (l.note [⟨.now, .ok⟩]) := by
      have := h.others h₁
      exact ⟨this.inTx, this.locked, this.clean, this.world⟩
    refine (safe_change hr fun D w₁ l₁ hD _ hin => ?_).mono fun out _ _ hq =>
      userPost_of_others h₁ hq
    refine safe_step (safe_sql hin
      (createUserRows_spec (M := m.moves) hD a name createdBy reset timestamp)) ?_
    rintro ⟨userId, deviceId, port⟩ copy w₃ l₃ hin ⟨hstep, hports⟩
    exact safe_step (safe_unblock hin hstep hopens hports) fun _ copy w₄ l₄ hin hstep =>
      safe_done hin hstep

theorem safe_addDevice (h : Ready ok w l) (hopens : m.opens = true) (userId : Int)
    (createdBy : String) (name : Option String) :
    Safe sem ok (others m) (guard m) (UserPost ok m w.db)
      (addDevice userId createdBy name) w l := by
  unfold addDevice
  cases deviceByOf createdBy with
  | none => exact safe_raised h _
  | some by_ =>
    refine safe_change h fun D w₁ l₁ hD _ hin => ?_
    refine safe_step (safe_sql hin (addDeviceRows_spec (M := m.moves) hD userId by_ createdBy name))
      ?_
    rintro ⟨u, deviceId, port⟩ copy w₂ l₂ hin ⟨hstep, hports⟩
    refine safe_step (K := fun _ copy =>
      UserStep m.moves D (if u.enabled ≠ 0 then unblockCalls [port] else []) copy) ?_
      fun _ copy w₃ l₃ hin hstep => safe_done hin hstep
    unfold Prog.runIf
    by_cases hen : u.enabled ≠ 0
    · simp only [if_pos hen] at hstep ⊢
      exact safe_unblock hin hstep hopens hports
    · simp only [if_neg hen] at hstep ⊢
      exact Safe.retStable (stable_bodyPost _) ⟨copy, hin, hstep⟩

theorem safe_deleteDevice (h : Ready ok w l) (deviceId : Int) (by_ : String)
    (hmoves : m.moves = fun i _ => i = deviceId) :
    Safe sem ok (others m) (guard m) (UserPost ok m w.db) (deleteDevice deviceId by_) w l := by
  refine safe_change h fun D w₁ l₁ hD _ hin => ?_
  refine safe_step (safe_sql hin (deleteDeviceRows_spec hD deviceId by_)) fun port copy w₂ l₂
    hin hstep => ?_
  rw [← hmoves] at hstep
  exact (safe_block hin hstep [port]).mono fun _ _ _ => bodyDone_of_post

theorem safe_rotateDevice (h : Ready ok w l) (hopens : m.opens = true) (deviceId : Int)
    (hmoves : m.moves = fun i _ => i = deviceId) :
    Safe sem ok (others m) (guard m) (UserPost ok m w.db) (rotateDevice deviceId) w l := by
  refine safe_change h fun D w₁ l₁ hD _ hin => ?_
  refine safe_step (safe_sql hin (rotateDeviceRows_spec hD deviceId)) ?_
  rintro ⟨old, u, port⟩ copy w₂ l₂ hin ⟨hstep, hports⟩
  rw [← hmoves] at hstep
  refine safe_step (safe_block hin hstep [old]) fun _ copy w₃ l₃ hin hstep => ?_
  unfold Prog.runIf
  by_cases hen : u.enabled ≠ 0
  · simp only [if_pos hen] at hstep ⊢
    exact (safe_unblock hin hstep hopens hports).mono fun _ _ _ => bodyDone_of_post
  · simp only [if_neg hen, List.append_nil] at hstep ⊢
    exact safe_done hin hstep

theorem safe_renameDevice (h : Ready ok w l) (deviceId : Int) (name : String) :
    Safe sem ok (others m) (guard m) (UserPost ok m w.db) (renameDevice deviceId name) w l :=
  safe_plainTransaction h fun _ hD => renameDeviceRows_spec hD deviceId name

theorem safe_updateProfile (h : Ready ok w l) (userId : Int) (a : ProfileUpdate) :
    Safe sem ok (others m) (guard m) (UserPost ok m w.db) (updateProfile userId a) w l :=
  safe_plainTransaction h fun _ hD => updateProfileRows_spec hD userId a

theorem safe_disableUser (h : Ready ok w l) (userId : Int) (reason : String) :
    Safe sem ok (others m) (guard m) (UserPost ok m w.db) (disableUser userId reason) w l := by
  unfold disableUser
  cases reasonOf reason with
  | none => exact safe_raised h _
  | some r =>
    refine safe_change h fun D w₁ l₁ hD _ hin => ?_
    refine safe_step (safe_sql hin (disableUserRows_spec (M := m.moves) hD userId r)) ?_
    rintro (_ | ports) copy w₂ l₂ hin hstep
    · exact safe_done hin hstep
    · exact safe_step (safe_block hin hstep ports) fun _ copy w₃ l₃ hin hstep => safe_done hin hstep

theorem safe_enableUser (h : Ready ok w l) (hopens : m.opens = true) (userId : Int) :
    Safe sem ok (others m) (guard m) (UserPost ok m w.db) (enableUser userId) w l := by
  refine safe_change h fun D w₁ l₁ hD _ hin => ?_
  refine safe_step (safe_sql hin (enableUserRows_spec (M := m.moves) hD userId)) ?_
  rintro (_ | ports) copy w₂ l₂ hin ⟨hstep, hports⟩
  · exact safe_done hin hstep
  · exact safe_step (safe_unblock hin hstep hopens hports) fun _ copy w₃ l₃ hin hstep =>
      safe_done hin hstep

theorem onActivePorts_of_frame {D copy : DB} (hf : PoolFrame D copy) {ports : List Int}
    (h : OnActivePorts copy ports) : OnActivePorts D ports := by
  intro p hp
  obtain ⟨s', hs', hact, rfl⟩ := h p hp
  obtain ⟨s, hs, hprog⟩ := hf.before hs'
  exact ⟨s, hs, (hf.onActive hprog).1 hact, (core_eq_iff.1 hprog.1).2.2.2.1.symm⟩

/-- The automatic re-enabling at the end of an operation. -/
theorem safe_maybeReenable (hopens : m.opens = true) {D copy : DB} {n : Nat}
    (hin : InTx ok false D n copy [] w l) (hstep : UserStep m.moves D [] copy) (userId : Int)
    (reason : Reason) :
    Safe sem ok (others m) (guard m) (BodyDone ok m D n anyCalls)
      (maybeReenable userId reason) w l := by
  unfold maybeReenable
  simp only [Prog.bind_eq]
  refine safe_step (safe_sql hin (maybeReenableRows_spec (M := m.moves) hstep.inv userId reason)) ?_
  rintro (_ | ports) copy' w₁ l₁ hin₁ ⟨hstep₁, hports⟩
  · exact safe_done hin₁ (hstep.trans hstep₁)
  · refine (safe_unblock hin₁ (hstep.trans hstep₁) hopens ?_).mono fun _ _ _ => bodyDone_of_post
    exact onActivePorts_of_frame hstep.frame hports

/-- The body of `set_expiry` and of `set_traffic_limit`. -/
theorem safe_thenReenable (hopens : m.opens = true) {D : DB} {n : Nat} {rows : Sql Unit}
    (hin : InTx ok false D n D [] w l)
    (hrows : rows.wp (fun v => isTokenHex v = true) (fun _ db' => UserStep m.moves D [] db') D)
    (enableNow : Bool) (userId : Int) (reason : Reason) :
    Safe sem ok (others m) (guard m) (BodyDone ok m D n anyCalls)
      ((sql rows).bind fun _ => Prog.runIf enableNow (maybeReenable userId reason)) w l := by
  refine safe_step (safe_sql hin hrows) fun _ copy w₁ l₁ hin₁ hstep => ?_
  unfold Prog.runIf
  split
  · exact safe_maybeReenable hopens hin₁ hstep userId reason
  · exact safe_done hin₁ hstep

theorem safe_setExpiry (h : Ready ok w l) (hopens : m.opens = true) (userId : Int)
    (expiresAt : Option Int) (enableNow : Bool) :
    Safe sem ok (others m) (guard m) (UserPost ok m w.db)
      (setExpiry userId expiresAt enableNow) w l :=
  safe_change h fun _ _ _ hD _ hin =>
    safe_thenReenable hopens hin (setExpiryRows_spec hD userId expiresAt) enableNow userId .expired

theorem safe_extend (h : Ready ok w l) (hopens : m.opens = true) (userId days : Int)
    (enableNow : Bool) :
    Safe sem ok (others m) (guard m) (UserPost ok m w.db) (extend userId days enableNow) w l := by
  unfold extend
  split
  · exact safe_raised h _
  · refine safe_change h fun D w₁ l₁ hD _ hin => ?_
    refine safe_step (safe_sql hin (extendRows_spec userId days)) ?_
    rintro expiresAt copy w₂ l₂ hin₂ rfl
    -- `set_expiry` joins the transaction
    refine Safe.seq (isRely_others m) (K := fun _ w₃ l₃ => ∃ copy' calls, anyCalls calls ∧
      InTx ok false copy l.firewallCalls copy' calls w₃ l₃ ∧ UserStep m.moves copy calls copy')
      (safe_nestedChange ?_ hin₂ fun w₃ hin₃ => ?_)
      fun _ w₃ l₃ ⟨copy', calls, _, hin₃, hstep⟩ => safe_done hin₃ hstep
    · exact stable_bodyDone (α := Unit)
    · exact safe_thenReenable hopens hin₃ (setExpiryRows_spec hD userId _) enableNow userId .expired

theorem safe_setTrafficLimit (h : Ready ok w l) (hopens : m.opens = true) (userId : Int)
    (limitBytes : Option Int) (reset : String) (enableNow : Bool) :
    Safe sem ok (others m) (guard m) (UserPost ok m w.db)
      (setTrafficLimit userId limitBytes reset enableNow) w l := by
  unfold setTrafficLimit
  cases resetOf reset with
  | none => exact safe_raised h _
  | some r =>
    simp only
    split
    · exact safe_raised h _
    · exact safe_change h fun D _ _ hD _ hin =>
        safe_thenReenable hopens hin (setTrafficLimitRows_spec hD userId limitBytes r reset)
          enableNow userId .trafficLimit

theorem safe_deleteUser (h : Ready ok w l) (userId : Int)
    (hmoves : m.moves = fun _ u => u = userId) :
    Safe sem ok (others m) (guard m) (UserPost ok m w.db) (deleteUser userId) w l := by
  refine safe_change h fun D w₁ l₁ hD _ hin => ?_
  refine safe_step (safe_sql hin (deleteUserRows_spec hD userId)) fun ports copy w₂ l₂ hin hstep =>
    ?_
  rw [← hmoves] at hstep
  exact (safe_block hin hstep ports).mono fun _ _ _ => bodyDone_of_post

end Users

end WebProxyPanel
