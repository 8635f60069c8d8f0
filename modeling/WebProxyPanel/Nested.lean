import WebProxyPanel.Quiet
import WebProxyPanel.People
import WebProxyPanel.TxLock
/-!
# Operations in a transaction of the caller

Inside an open transaction `_change` only yields: it counts no firewall calls and undoes none, and
`transaction` around it knows of none. So whatever the calls of a block have changed stays when the
block is left by an exception.

* `outerBlock` — some operations and an exception of the caller in one `db.transaction`.
* `QuietOps` — operations each of which is quiet on the database that those before it leave.

`outerBlock_agreement_iff`: the block is left in agreement, whatever fails, iff every call that it
can reach is idle. `QuietOps.everyCall`: the calls of quiet operations are.
-/

namespace WebProxyPanel
open Effects Users

/-! ## Blocks -/

/-- The caller's own code after the operations. -/
def leave : Option Err → P Unit
  | none => .ret ()
  | some e => .raise e

def outerBody (ops : List Op) (exit : Option Err) : P Unit :=
  (ops.forM Op.program).bind fun _ => leave exit

/-- `with db.transaction(conn):` around some operations; `exit` is an exception of the code between
or after them. -/
def outerBlock (ops : List Op) (exit : Option Err) : P Unit := transaction (outerBody ops exit)

/-- The slots on active shards are open or closed alike. -/
def SamePorts (db : DB) (f f' : Finset Int) : Prop :=
  ∀ s ∈ db.slots, OnActive db s → (s.port ∈ f' ↔ s.port ∈ f)

section SamePorts
variable {w : World} {f : Finset Int} {call : FwCall}

theorem SamePorts.idle (h : SamePorts w.db w.blocked f) (hidle : Idle w call) :
    SamePorts w.db w.blocked (call.run f) :=
  fun s hs ha => (FwCall.mem_run_congr (h s hs ha)).trans (hidle s hs ha)

theorem SamePorts.of_run (h : SamePorts w.db w.blocked f)
    (hrun : SamePorts w.db w.blocked (call.run f)) : Idle w call :=
  fun s hs ha => (FwCall.mem_run_congr (h s hs ha)).symm.trans (hrun s hs ha)

theorem agreement_samePorts {w' : World} (h : Agreement w) (hdb : w'.db = w.db) :
    Agreement w' ↔ SamePorts w.db w.blocked w'.blocked := by
  unfold Agreement SamePorts
  rw [hdb]
  refine forall₂_congr fun s hs => forall_congr' fun ha => ?_
  have := h s hs ha
  tauto

end SamePorts

/-! ## Every call is idle -/

section Idle
variable {ok : Allow Action Choice State} {w w₁ : World} {l : Own} {copy : DB} {α : Type}

/-- Inside the block that began on `w`. -/
structure InBlock (w : World) (copy : DB) (w₁ : World) (l : Own) : Prop where
  inTx : l.inTx = true
  db : w₁.db = w.db
  writer : ∃ tx, w₁.writer = some tx ∧ tx.copy = copy
  same : SamePorts w.db w.blocked w₁.blocked

/-- The committed database and the ports are those of `w`. -/
structure Unchanged (w w₁ : World) : Prop where
  db : w₁.db = w.db
  same : SamePorts w.db w.blocked w₁.blocked

/-- The body has returned, or is left by an exception. -/
def BodyLeft (w : World) : Except Err α → World → Own → Prop :=
  post (fun _ w₁ l => ∃ copy, InBlock w copy w₁ l) fun _ w₁ _ => Unchanged w w₁

theorem InBlock.unchanged (h : InBlock w copy w₁ l) : Unchanged w w₁ := ⟨h.db, h.same⟩

theorem InBlock.ownTx (h : InBlock w copy w₁ l) :
    ∃ tx, ownTx (w₁, l) = some tx ∧ tx.copy = copy := by
  obtain ⟨tx, hw, hcopy⟩ := h.writer
  exact ⟨tx, by simp [WebProxyPanel.ownTx, h.inTx, hw], hcopy⟩

theorem InBlock.fwCall (h : InBlock w copy w₁ l) {call : FwCall} (fails done : Bool) {l' : Own}
    (hl : l'.inTx = true) (hsame : done = true → Idle w call) :
    InBlock w copy (w₁.fwCall call fails done) l' := by
  refine ⟨hl, h.db, ?_, ?_⟩
  · obtain ⟨tx, hw, hcopy⟩ := h.writer
    exact ⟨{ tx with issued := tx.issued ++ [call], failed := tx.failed || fails }, by simp [hw], hcopy⟩
  · cases done with
    | true => exact h.same.idle (hsame rfl)
    | false => exact h.same

theorem EveryCall.held {p : P α} (h : EveryCall (Idle w) p copy) (hp : Unwinds p)
    (hin : InBlock w copy w₁ l) : Safe sem ok alone free (BodyLeft w) p w₁ l := by
  induction p generalizing copy w₁ l with
  | ret a => exact Safe.retStable (stable_alone _) ⟨copy, hin⟩
  | raise e => exact Safe.raiseStable (stable_alone _) hin.unchanged
  | act a k ih =>
    rintro _ rfl
    refine ⟨trivial, fun r w₂ l₂ hn => ?_⟩
    obtain ⟨ha, hraise, hk⟩ := hp
    have hleft : ∀ e, Unchanged w w₂ →
        Safe sem ok alone free (BodyLeft w) (k (.error e)) w₂ l₂ := by
      intro e hu
      obtain ⟨e', he'⟩ := hraise e
      rw [he']
      exact Safe.raiseStable (stable_alone _) hu
    cases a with
    | sql m =>
      obtain ⟨tx, htx, hcopy⟩ := hin.ownTx
      rcases next_sql htx hn with ⟨inp, db', -, htokens, rfl, rfl, ⟨b, hm, rfl⟩ | ⟨e, -, rfl⟩⟩ |
        ⟨msg, gone, left, -, rfl, ⟨-, rfl, rfl⟩ | ⟨-, rfl, rfl⟩⟩
      · rw [hcopy] at hm
        exact ih (.ok b) (h inp b db' htokens hm) (hk b trivial)
          ⟨hin.inTx, hin.db, ⟨_, rfl, rfl⟩, hin.same⟩
      · exact hleft _ ⟨hin.db, hin.same⟩
      · exact hleft _ ⟨hin.db, hin.same⟩
      · exact hleft _ ⟨hin.db, hin.same⟩
    | fwCall call =>
      obtain ⟨hidle, hrest⟩ := h
      rcases next_fwCall hn with ⟨rfl, rfl, rfl⟩ | ⟨msg, done, -, rfl, rfl, rfl⟩
      · exact ih (.ok ()) hrest (hk () trivial) (hin.fwCall false true hin.inTx fun _ => hidle)
      · exact hleft _ (hin.fwCall true done hin.inTx fun _ => hidle).unchanged
    | now =>
      obtain ⟨⟨t, rfl⟩, rfl, rfl⟩ := next_now hn
      exact ih (.ok t) (h t) (hk t trivial) ⟨hin.inTx, hin.db, hin.writer, hin.same⟩
    | inTransaction =>
      obtain ⟨rfl, rfl, rfl⟩ := next_inTransaction hn
      rw [hin.inTx]
      exact ih (.ok true) h (hk true rfl) hin
    | _ => exact ha.elim

/-- The block is left with nothing changed. -/
theorem EveryCall.unchanged {body : P α} (h : EveryCall (Idle w) body w.db) (hbody : Unwinds body)
    (hl : l.inTx = false) :
    Safe sem ok alone free (post (fun _ _ _ => True) fun _ w₁ _ => Unchanged w w₁)
      (transaction body) w l := by
  have hstart : Unchanged w w := ⟨rfl, fun _ _ _ => Iff.rfl⟩
  refine safe_transaction isRely_alone (fun _ _ => ⟨trivial, trivial⟩) (stable_alone _)
    (stable_alone _) hl (B := BodyLeft w) ?_ ?_ ?_ ?_
  · rintro _ rfl
    exact ⟨trivial, fun _ _ _ => hstart⟩
  · rintro _ rfl -
    exact h.held hbody ⟨rfl, rfl, ⟨_, rfl, rfl⟩, hstart.same⟩
  · rintro a w₁ l₁ ⟨copy, hin⟩
    obtain ⟨tx, htx, -⟩ := hin.ownTx
    refine ⟨tx, htx, trivial, trivial, fun _ _ _ => ⟨hin.db, hin.same⟩, ?_⟩
    rintro msg left _ - rfl
    exact ⟨tx, htx, hin.db, hin.same⟩
  · rintro e w₁ l₁ hu
    unfold RollsBack
    split
    · exact ⟨hu.db, hu.same⟩
    · exact fun _ => hu

end Idle

/-! ## Some call is not -/

section Reaches
variable {w w₁ : World} {l : Own} {copy : DB} {α : Type}

/-- Anything but the sync after a rollback may fail. -/
abbrev recovered (c : Choice) {β : Type} (a : Action β) (s : State) : Prop :=
  recovering c a s = true

theorem recovered_of_joins {c : Choice} {β : Type} {a : Action β} {s : State} (ha : a.joins) :
    recovered c a s := by
  cases a <;> first
    | exact ha.elim
    | simp [recovered, recovering, Action.isSync]

/-- Left by an exception, the transaction still open, and a port changed. -/
structure LeftChanged (w w₁ : World) (l : Own) : Prop where
  inTx : l.inTx = true
  db : w₁.db = w.db
  writer : ∃ tx, w₁.writer = some tx
  changed : ¬ SamePorts w.db w.blocked w₁.blocked

/-- The first call that is not idle fails after its effect. -/
theorem reaches_call {p : P α} (h : ¬ EveryCall (Idle w) p copy) (hp : Unwinds p)
    (hin : InBlock w copy w₁ l) :
    ∃ e w₂ l₂, sem.Steps recovered p (w₁, l) (.raise e) (w₂, l₂) ∧ LeftChanged w w₂ l₂ := by
  induction p generalizing copy w₁ l with
  | ret a => exact absurd trivial h
  | raise e => exact absurd trivial h
  | act a k ih =>
    obtain ⟨ha, hraise, hk⟩ := hp
    have hallowed : ∀ c, recovered c a (w₁, l) := fun c => recovered_of_joins ha
    cases a with
    | sql m =>
      simp only [EveryCall, not_forall] at h
      obtain ⟨inp, b, copy', htokens, hm, h⟩ := h
      obtain ⟨tx, htx, hcopy⟩ := hin.ownTx
      have hn : sem.Next recovered (w₁, l) (.sql m) (.ok b)
          ({ w₁ with writer := some (tx.ran copy' inp.tokens) }, l.note [⟨.statements, .ok⟩]) := by
        refine ⟨.inputs inp, hallowed _, ?_⟩
        simp only [sem, perform, respond, htx, runSql, htokens, hcopy, hm]
        rfl
      have hin' : InBlock w copy' { w₁ with writer := some (tx.ran copy' inp.tokens) }
          (l.note [⟨.statements, .ok⟩]) :=
        ⟨hin.inTx, hin.db, ⟨_, rfl, rfl⟩, hin.same⟩
      obtain ⟨e, w₂, l₂, hs, hleft⟩ := ih (.ok b) h (hk b trivial) hin'
      exact ⟨e, w₂, l₂, .step hn hs, hleft⟩
    | fwCall call =>
      by_cases hidle : Idle w call
      · have hn : sem.Next recovered (w₁, l) (.fwCall call) (.ok ())
            (w₁.fwCall call false true, (l.called call).note [⟨.fwCall call, .ok⟩]) :=
              ⟨.ok, hallowed _, rfl⟩
        have hrest : ¬ EveryCall (Idle w) (k (.ok ())) copy := fun hrest => h ⟨hidle, hrest⟩
        have hin' : InBlock w copy (w₁.fwCall call false true)
            ((l.called call).note [⟨.fwCall call, .ok⟩]) :=
          hin.fwCall false true hin.inTx fun _ => hidle
        obtain ⟨e, w₂, l₂, hs, hleft⟩ := ih (.ok ()) hrest (hk () trivial) hin'
        exact ⟨e, w₂, l₂, .step hn hs, hleft⟩
      · have hn : sem.Next recovered (w₁, l) (.fwCall call) (.error (.system "wppctl"))
            (w₁.fwCall call true true, (l.called call).note [⟨.fwCall call, .raised⟩]) :=
              ⟨.fail "wppctl" true, hallowed _, rfl⟩
        obtain ⟨e', he'⟩ := hraise (.system "wppctl")
        refine ⟨e', w₁.fwCall call true true, (l.called call).note [⟨.fwCall call, .raised⟩],
          .step hn ?_, hin.inTx, hin.db, ?_, ?_⟩
        · rw [he']
          exact .refl
        · obtain ⟨tx, hw, -⟩ := hin.writer
          exact ⟨_, by rw [World.fwCall_writer, hw]; rfl⟩
        · exact fun hsame => hidle (hin.same.of_run hsame)
    | now =>
      simp only [EveryCall, not_forall] at h
      obtain ⟨t, h⟩ := h
      have hn : sem.Next recovered (w₁, l) .now (.ok t) (w₁, l.note [⟨.now, .ok⟩]) :=
        ⟨.time t, hallowed _, rfl⟩
      have hin' : InBlock w copy w₁ (l.note [⟨.now, .ok⟩]) :=
        ⟨hin.inTx, hin.db, hin.writer, hin.same⟩
      obtain ⟨e, w₂, l₂, hs, hleft⟩ := ih (.ok t) h (hk t trivial) hin'
      exact ⟨e, w₂, l₂, .step hn hs, hleft⟩
    | inTransaction =>
      have hn : sem.Next recovered (w₁, l) .inTransaction (.ok true) (w₁, l.note []) := by
        refine ⟨.ok, hallowed _, ?_⟩
        simp only [sem, perform, respond, hin.inTx]
        rfl
      have hin' : InBlock w copy w₁ (l.note []) := ⟨hin.inTx, hin.db, hin.writer, hin.same⟩
      obtain ⟨e, w₂, l₂, hs, hleft⟩ := ih (.ok true) h (hk true rfl) hin'
      exact ⟨e, w₂, l₂, .step hn hs, hleft⟩
    | _ => exact ha.elim

theorem reaches_changed {body : P α} (h : ¬ EveryCall (Idle w) body w.db) (hbody : Unwinds body)
    (hw : w.writer = none) (n : Nat) :
    ∃ e w' l', sem.Runs recovered (transaction body) (w, Own.idle n) (.error e) (w', l') ∧
      w'.db = w.db ∧
      ¬ SamePorts w.db w.blocked w'.blocked := by
  have hask : sem.Next recovered (w, Own.idle n) .inTransaction (.ok false)
      (w, (Own.idle n).note []) :=
    ⟨.ok, recovered_of_joins trivial, rfl⟩
  generalize hl₁ : ({ Own.idle n with inTx := true } : Own).note [⟨.begin_, .ok⟩] = l₁
  have hbegin : sem.Next recovered (w, (Own.idle n).note []) .beginImmediate (.ok ())
      (w.begin_, l₁) := by
    refine ⟨.ok, by simp [recovered, recovering, Action.isSync], ?_⟩
    simp only [sem, perform, respond, hw, ← hl₁]
    rfl
  have hin : InBlock w w.db w.begin_ l₁ :=
    ⟨by rw [← hl₁]; rfl, rfl, ⟨_, rfl, rfl⟩, fun _ _ _ => Iff.rfl⟩
  obtain ⟨e, w₂, l₂, hs, hleft⟩ := reaches_call h hbody hin
  obtain ⟨tx, htx⟩ := hleft.writer
  have hrollback : sem.Next recovered (w₂, l₂) .rollback (.ok ())
      (w₂.rollback, (l₂.rolledBack tx).note [⟨.rollback, .ok⟩]) := by
    refine ⟨.ok, by simp [recovered, recovering, Action.isSync], ?_⟩
    simp only [sem, perform, respond, ownTx, hleft.inTx, htx]
    rfl
  refine ⟨e, w₂.rollback, (l₂.rolledBack tx).note [⟨.rollback, .ok⟩], ?_, hleft.db, hleft.changed⟩
  refine .step hask (.step hbegin ?_)
  exact ((hs.tryCatch _).bind _).trans (.step hrollback .refl)

end Reaches

/-! ## The block -/

theorem unwinds_outerBody {ops : List Op} (hops : ∀ op ∈ ops, op.isUser = true)
    (exit : Option Err) : Unwinds (outerBody ops exit) := by
  have hall : Unwinds (ops.forM Op.program) := by
    induction ops with
    | nil => trivial
    | cons op ops ih =>
      refine Unwinds.bind (unwinds_program (hops op List.mem_cons_self)) fun _ => ih ?_
      exact fun op hop => hops op (List.mem_cons_of_mem _ hop)
  refine hall.bind fun _ => ?_
  cases exit <;> trivial

/-- A block of operations in a transaction of the caller is left in agreement by every exception,
whatever fails, iff each call that it can reach leaves the slots on active shards as they are. -/
theorem outerBlock_agreement_iff {w : World} (hw : Settled w) {ops : List Op}
    (hops : ∀ op ∈ ops, op.isUser = true) (exit : Option Err) :
    (∀ n e w' l', sem.Runs recovered (outerBlock ops exit) (w, Own.idle n) (.error e) (w', l') →
      Agreement w') ↔
      EveryCall (Idle w) (outerBody ops exit) w.db := by
  have hbody := unwinds_outerBody hops exit
  constructor
  · intro hall
    by_contra h
    obtain ⟨e, w', l', hruns, hdb, hchanged⟩ := reaches_changed h hbody hw.writer 0
    exact hchanged ((agreement_samePorts hw.agree hdb).1 (hall 0 e w' l' hruns))
  · intro h n e w' l' hruns
    have hunchanged : Unchanged w w' := Safe.runs isRely_alone (h.unchanged hbody rfl) hruns
    exact (agreement_samePorts hw.agree hunchanged.db).2 hunchanged.same

theorem settled_sample : Settled World.sample := by
  have hrest := sequence_sample.resting resting_initial
  exact ⟨hrest.world, hrest.writer, by decide +kernel⟩

/-- Each operation is quiet, wherever those before it have led. -/
def QuietOps : List Op → DB → Prop
  | [], _ => True
  | op :: ops, db =>
    Quiet db op ∧ ∀ db' ids calls, Effect (fun _ => True) db db' op ids calls → QuietOps ops db'

theorem QuietOps.everyCall {w : World} {copy : DB} {ops : List Op} (h : QuietOps ops copy)
    (habreast : Abreast w copy) (exit : Option Err) :
    EveryCall (Idle w) (outerBody ops exit) copy := by
  induction ops generalizing copy with
  | nil => cases exit <;> trivial
  | cons op ops ih =>
    show EveryCall (Idle w) ((op.program.bind fun _ => ops.forM Op.program).bind fun _ =>
        leave exit) copy
    rw [Prog.bind_assoc]
    exact h.1.everyCall habreast fun copy' ids calls heffect habreast' =>
      ih (h.2 copy' ids calls heffect) habreast'

/-- A second user with two devices, who is disabled then. -/
def shutSetup : List (Op × List Choice) := sampleSetup ++
  [(.createUser pairUser, createOnce),
    (.addDevice 2 "panel" none, succeed 4 ++ [.inputs ⟨[0, 0], []⟩] ++ succeed 2),
    (.disableUser 2 "manual", switchOnce)]

theorem shutSetup_plays : (playOps anything shutSetup World.initial).isSome = true :=
  by decide +kernel

def World.shut : World := (playOps anything shutSetup World.initial).get shutSetup_plays

theorem world_shut : Agreement World.shut ∧ ShutDevice World.shut.db 2 ∧ Shut World.shut.db 2 ∧
    LetIn World.shut.db 1 := by decide +kernel

theorem settled_shut : Settled World.shut := by
  have hrest := (course_of_playOps (P := fun _ => True) (fun _ _ => trivial)
    (Option.some_get shutSetup_plays).symm).sequence.resting resting_initial
  exact ⟨hrest.world, hrest.writer, world_shut.1⟩

/-- What is changed about a user who is enabled. -/
def settings : List Op :=
  [.setExpiry 1 (some 5) true, .extend 1 30 true, .setTrafficLimit 1 none "never" true,
    .updateProfile 1 ⟨none, none, none, some "abroad", none⟩, .renameDevice 1 "phone"]

/-- Before that the disabled user is disabled once more, loses a device, gets another one and goes;
and the enabled one is enabled once more. -/
def quietBlock : List Op :=
  [.disableUser 2 "manual", .enableUser 1, .deleteDevice 2 "panel", .addDevice 2 "panel" none,
    .deleteUser 2] ++ settings

theorem quietOps_settings {db : DB} (h : LetIn db 1) : QuietOps settings db := by
  refine ⟨quiet_setExpiry fun _ u hu hid => h.not_reenabled hu hid fun _ => rfl,
    fun db₁ ids₁ calls₁ h₁ => ?_⟩
  have h₁ : LetIn db₁ 1 := by
    cases h₁ with
    | setExpiry hset => exact hset.letIn (fun _ => ⟨rfl, rfl⟩) h
  refine ⟨quiet_extend fun _ u hu hid _ => h₁.not_reenabled hu hid fun _ => rfl,
    fun db₂ ids₂ calls₂ h₂ => ?_⟩
  have h₂ : LetIn db₂ 1 := by
    cases h₂ with
    | extend _ _ _ _ hset => exact hset.letIn (fun _ => ⟨rfl, rfl⟩) h₁
  refine ⟨quiet_setTrafficLimit fun _ u hu hid _ => h₂.not_reenabled hu hid fun _ => rfl,
    fun db₃ ids₃ calls₃ _ => ?_⟩
  exact ⟨quiet_updateProfile _, fun _ _ _ _ => ⟨quiet_renameDevice _, fun _ _ _ _ => trivial⟩⟩

theorem quietOps_quietBlock {db : DB} (hshut : Shut db 2) (hdevice : ShutDevice db 2)
    (hletIn : LetIn db 1) : QuietOps quietBlock db := by
  -- neither user changes before one of them is deleted
  refine ⟨quiet_disableUser hshut _, fun db₁ ids₁ calls₁ h₁ => ?_⟩
  obtain ⟨husers₁, hdevices₁⟩ := hshut.disableUser h₁
  have hletIn₁ : LetIn db₁ 1 := fun u hu => hletIn u (husers₁ ▸ hu)
  refine ⟨quiet_enableUser hletIn₁, fun db₂ ids₂ calls₂ h₂ => ?_⟩
  obtain ⟨husers₂, hdevices₂⟩ := hletIn₁.enableUser h₂
  have husers₂ := husers₂.trans husers₁
  have hdevice₂ : ShutDevice db₂ 2 := fun d hd hid u hu =>
    hdevice d (hdevices₁ ▸ hdevices₂ ▸ hd) hid u (husers₂ ▸ hu)
  refine ⟨quiet_deleteDevice hdevice₂ _, fun db₃ ids₃ calls₃ h₃ => ?_⟩
  have husers₃ : db₃.users = db.users := by
    cases h₃ with
    | deleteDevice _ _ husers _ => exact husers.trans husers₂
  refine ⟨quiet_addDevice (fun u hu => hshut u (husers₃ ▸ hu)) _ _, fun db₄ ids₄ calls₄ h₄ => ?_⟩
  have husers₄ : db₄.users = db.users := by
    cases h₄ with
    | addDevice _ _ _ _ _ husers _ => exact husers.trans husers₃
  refine ⟨quiet_deleteUser fun u hu => hshut u (husers₄ ▸ hu), fun db₅ ids₅ calls₅ h₅ => ?_⟩
  refine quietOps_settings fun u hu => ?_
  cases h₅ with
  | deleteUser _ _ husers _ =>
    rw [husers, husers₄] at hu
    exact hletIn u (Table.mem_delete.1 hu).1

/-- One answer an action: `block` for the devices of the disabled user, and at the end the exception
of the caller. -/
def quietChoices : List Choice :=
  succeed 3 ++ [.inputs ⟨[], []⟩, .ok, .inputs ⟨[], []⟩, .ok, .inputs ⟨[0], []⟩] ++ succeed 2 ++
    [.inputs ⟨[0, 0], []⟩, .ok, .inputs ⟨[0], []⟩] ++ succeed 2 ++
    [.inputs ⟨[0], []⟩, .inputs ⟨[], []⟩, .ok, .inputs ⟨[0], []⟩, .ok, .inputs ⟨[0], []⟩,
      .inputs ⟨[], []⟩, .ok, .inputs ⟨[0], []⟩, .inputs ⟨[], []⟩, .ok, .inputs ⟨[0], []⟩, .ok,
      .inputs ⟨[], []⟩, .ok]

theorem quietBlock_runs :
    ((sem.play recovering quietChoices (outerBlock quietBlock (some (.value "caller")))
      (World.shut, Own.idle 0)).map fun x => (x.1.outcome?, firewallCalls x.2.2.trace)) =
        some (some (.error (.value "caller")), [.block [20001], .block [20002, 20003]]) := by
  decide +kernel

/-- The calls are made, the exception undoes the rows, and the firewall agrees with them. -/
theorem outerBlock_agreement_iff_quietBlock :
    (∃ w' l', sem.Runs recovered (outerBlock quietBlock (some (.value "caller")))
      (World.shut, Own.idle 0)
      (.error (.value "caller")) (w', l') ∧ firewallCalls l'.trace =
        [.block [20001], .block [20002, 20003]]) ∧
    ∀ n e w' l', sem.Runs recovered (outerBlock quietBlock (some (.value "caller")))
      (World.shut, Own.idle n)
      (.error e) (w', l') → Agreement w' := by
  constructor
  · obtain ⟨⟨p, w', l'⟩, hplay, hend⟩ := Option.map_eq_some_iff.1 quietBlock_runs
    obtain ⟨hout, hcalls⟩ := Prod.mk.inj hend
    obtain rfl := Prog.outcome?_eq_some.1 hout
    exact ⟨w', l', Sem.Steps.of_play hplay, hcalls⟩
  · obtain ⟨-, hdevice, hshut, hletIn⟩ := world_shut
    have hcalls := (quietOps_quietBlock hshut hdevice hletIn).everyCall settled_shut.abreast
      (some (.value "caller"))
    exact (outerBlock_agreement_iff settled_shut (by simp [quietBlock, settings, Op.isUser]) _).2
      hcalls

/-- The user is disabled, then the caller gives up. -/
def disableThenRaise : P Unit := outerBlock [.disableUser 1 "manual"] (some (.value "caller"))

theorem disableThenRaise_runs :
    ((sem.play recovering [.ok, .ok, .ok, .inputs ⟨[0], []⟩, .ok, .ok] disableThenRaise
      (World.sample, Own.idle 0)).map fun x => (x.1.outcome?, decide (Agreement x.2.1))) =
        some (some (.error (.value "caller")), false) := by
  decide +kernel

theorem disableThenRaise_disagrees : ∃ w' l', Settled World.sample ∧
    sem.Runs recovered disableThenRaise (World.sample, Own.idle 0) (.error (.value "caller"))
      (w', l') ∧ ¬ Agreement w' := by
  obtain ⟨⟨p, w', l'⟩, hplay, hend⟩ := Option.map_eq_some_iff.1 disableThenRaise_runs
  obtain ⟨hout, hdisagree⟩ := Prod.mk.inj hend
  obtain rfl := Prog.outcome?_eq_some.1 hout
  exact ⟨w', l', settled_sample, Sem.Steps.of_play hplay, of_decide_eq_false hdisagree⟩

end WebProxyPanel
