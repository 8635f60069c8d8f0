import WebProxyPanel.Filled
/-!
# Statements that come to an end

* `Sql.Concluding` — at any database some inputs are just what the statements take: all of users.py,
  and the last transactions of `apply`.
* `proceeds_program` — whatever the other processes do, every operation reaches its statements at
  databases where they come to an end: those that draw secrets are made at a committed database,
  where a new one can be found.
-/

namespace WebProxyPanel
open Effects Table

/-! ## Statements that come to an end -/

namespace Sql
variable {α β : Type}

/-- At any database some inputs are just what the statements take. -/
structure Concluding (m : Sql α) : Prop where
  framed : Framed m
  fed : ∀ db, Fed m db

theorem Concluding.pure (a : α) : Concluding (Pure.pure a : Sql α) := ⟨.pure a, .pure a⟩

theorem Concluding.query (f : DB → α) : Concluding (Sql.query f) := ⟨.query f, .query f⟩

theorem Concluding.raise (e : Err) : Concluding (Sql.raise e : Sql α) := ⟨.raise e, .raise e⟩

theorem Concluding.execute (f : DB → DB) : Concluding (Sql.execute f) := ⟨.execute f, .execute f⟩

theorem Concluding.now : Concluding Sql.now := ⟨.now, .now⟩

theorem Concluding.bind {m : Sql α} {f : α → Sql β} (hm : Concluding m)
    (hf : ∀ a, Concluding (f a)) : Concluding (m >>= f) :=
  ⟨.bind hm.framed fun a => (hf a).framed, fun db =>
    .bind hm.framed (hm.fed db) fun _ a db' _ _ _ => (hf a).fed db'⟩

theorem Concluding.orRaise (o : Option α) (e : Err) : Concluding (Sql.orRaise o e) := by
  cases o with
  | none => exact .raise e
  | some a => exact .pure a

theorem Concluding.forM {ι : Type} {f : ι → Sql PUnit} (hf : ∀ x, Concluding (f x)) (xs : List ι) :
    Concluding (xs.forM f) := by
  induction xs with
  | nil => exact .pure _
  | cons x xs ih => exact .bind (hf x) fun _ => ih

end Sql

section Rows
open Sql Users

theorem concluding_logEvent (kind : String) (userId : Option Int) (details : String) :
    Concluding (logEvent kind userId details) :=
  .bind .now fun _ => .execute _

theorem concluding_abortStaged : Concluding abortStaged := ⟨framed_abortStaged, fed_abortStaged⟩

theorem concluding_commitRows (a : ApplyArgs) : Concluding (do
    commitStaged
    logEvent "pool_applied" none ("shards=" ++ joinOr a.shards ++ " new=" ++ joinOr a.newShards)) :=
  .bind ⟨framed_commitStaged, fed_commitStaged⟩ fun _ => concluding_logEvent _ _ _

theorem concluding_takeFreeSlot (deviceId : Option Int) : Concluding (takeFreeSlot deviceId) :=
  .bind (.query _) fun row => .bind (.orRaise row _) fun _ => .bind (.execute _) fun _ =>
    .bind (.query _) fun again => .orRaise again _

theorem concluding_liftExcept {α : Type} (x : Except Err α) : Concluding (liftExcept x) := by
  cases x with
  | ok a => exact .pure a
  | error e => exact .raise e

theorem concluding_user (userId : Int) : Concluding (user userId) :=
  .bind (.query _) fun row => .orRaise row _

theorem concluding_device (deviceId : Int) : Concluding (device deviceId) :=
  .bind (.query _) fun row => .orRaise row _

theorem concluding_maxDevices (u : User) : Concluding (maxDevices u) := by
  unfold maxDevices
  split
  · exact .pure _
  refine .bind (.bind (.query _) fun row => ?_) fun value => ?_
  · cases row with
    | some value => exact .pure value
    | none => exact .orRaise _ _
  · exact concluding_liftExcept _

theorem concluding_attachDevice (userId : Int) (name : Option String) (createdBy : DeviceBy) :
    Concluding (attachDevice userId name createdBy) := by
  refine .bind (concluding_takeFreeSlot none) fun slot => .bind (.query _) fun count =>
    .bind ?_ fun deviceName => .bind .now fun ts => ?_
  · unfold deviceNameOf
    split
    · split
      · exact .pure _
      · exact concluding_liftExcept _
    · exact .pure _
  · exact .bind (.query _) fun _ => .bind (.execute _) fun _ => .bind (.execute _) fun _ => .pure _

theorem concluding_createUserRows (a : NewUser) (name : String) (createdBy : CreatedBy)
    (reset : Reset) (timestamp : Int) :
    Concluding (createUserRows a name createdBy reset timestamp) := by
  refine .bind (.query _) fun taken => ?_
  dsimp only
  split
  · exact .raise _
  exact .bind (.query _) fun _ => .bind (.execute _) fun _ =>
    .bind (concluding_attachDevice _ _ _) fun _ =>
    .bind (concluding_logEvent _ _ _) fun _ => .pure _

theorem concluding_addDeviceRows (userId : Int) (createdBy : DeviceBy) (text : String)
    (name : Option String) : Concluding (addDeviceRows userId createdBy text name) := by
  refine .bind (concluding_user userId) fun u => ?_
  dsimp only
  split
  · exact .raise _
  refine .bind (concluding_maxDevices u) fun limit => .bind (.query _) fun count => ?_
  split
  · exact .raise _
  exact .bind (concluding_attachDevice _ _ _) fun _ =>
    .bind (concluding_logEvent _ _ _) fun _ => .pure _

theorem concluding_deleteDeviceRows (deviceId : Int) (by_ : String) :
    Concluding (deleteDeviceRows deviceId by_) :=
  .bind (concluding_device deviceId) fun _ => .bind (.execute _) fun _ =>
    .bind (.execute _) fun _ => .bind (concluding_logEvent _ _ _) fun _ => .pure _

theorem concluding_rotateDeviceRows (deviceId : Int) : Concluding (rotateDeviceRows deviceId) :=
  .bind (concluding_device deviceId) fun _ => .bind (concluding_user _) fun _ =>
    .bind (concluding_takeFreeSlot _) fun _ => .bind (.execute _) fun _ =>
    .bind (.execute _) fun _ => .bind (concluding_logEvent _ _ _) fun _ => .pure _

theorem concluding_renameDeviceRows (deviceId : Int) (name : String) :
    Concluding (renameDeviceRows deviceId name) :=
  .bind (concluding_device deviceId) fun _ => .bind (concluding_liftExcept _) fun _ => .execute _

theorem concluding_disableUserRows (userId : Int) (reason : Reason) :
    Concluding (disableUserRows userId reason) := by
  refine .bind (concluding_user userId) fun u => ?_
  split
  · exact .pure _
  · exact .bind (.execute _) fun _ => .bind (concluding_logEvent _ _ _) fun _ =>
      .bind (.query _) fun _ => .pure _

theorem concluding_enableUserRows (userId : Int) : Concluding (enableUserRows userId) := by
  refine .bind (concluding_user userId) fun u => ?_
  split
  · exact .pure _
  · exact .bind (.execute _) fun _ => .bind (concluding_logEvent _ _ _) fun _ =>
      .bind (.query _) fun _ => .pure _

theorem concluding_maybeReenableRows (userId : Int) (reason : Reason) :
    Concluding (maybeReenableRows userId reason) := by
  refine .bind (concluding_user userId) fun u => ?_
  split
  · exact .pure _
  refine .bind .now fun timestamp => ?_
  split
  · exact .pure _
  · exact .bind (.execute _) fun _ => .bind (concluding_logEvent _ _ _) fun _ =>
      .bind (.query _) fun _ => .pure _

theorem concluding_setExpiryRows (userId : Int) (expiresAt : Option Int) :
    Concluding (setExpiryRows userId expiresAt) :=
  .bind (concluding_user userId) fun _ => .bind (.execute _) fun _ => concluding_logEvent _ _ _

theorem concluding_extendRows (userId days : Int) : Concluding (extendRows userId days) :=
  .bind (concluding_user userId) fun _ => .bind .now fun _ => .pure _

theorem concluding_setTrafficLimitRows (userId : Int) (limitBytes : Option Int) (reset : Reset)
    (text : String) : Concluding (setTrafficLimitRows userId limitBytes reset text) :=
  .bind (concluding_user userId) fun _ => .bind (.execute _) fun _ => concluding_logEvent _ _ _

theorem concluding_updateField {α : Type} (value : Option α) (userId : Int) (f : α → User → User) :
    Concluding (updateField value userId f) := by
  cases value with
  | some v => exact .execute _
  | none => exact .pure _

theorem concluding_updateProfileRows (userId : Int) (a : ProfileUpdate) :
    Concluding (updateProfileRows userId a) := by
  refine .bind (concluding_user userId) fun _ => .bind ?_ fun name =>
    .bind (concluding_updateField _ _ _) fun _ => .bind (.query _) fun taken => ?_
  · unfold cleanField
    split
    · exact .bind (concluding_liftExcept _) fun _ => .pure _
    · exact .pure _
  split
  · exact .raise _
  refine .bind (concluding_updateField _ _ _) fun _ => .bind (concluding_updateField _ _ _) fun _ =>
    .bind (concluding_updateField _ _ _) fun _ => ?_
  split
  · exact .raise _
  · exact .bind (concluding_updateField _ _ _) fun _ => concluding_logEvent _ _ _

theorem concluding_deleteUserRows (userId : Int) : Concluding (deleteUserRows userId) :=
  .bind (concluding_user userId) fun _ => .bind (.query _) fun _ => .bind (.query _) fun rows =>
    .bind (.forM (fun _ => .execute _) rows) fun _ =>
    .bind (.execute _) fun _ => .bind (.execute _) fun _ =>
      .bind (concluding_logEvent _ _ _) fun _ => .pure _

end Rows

/-! ## Programs that ask for nothing else -/

/-- The statements, if any, always come to an end. -/
def Action.ending {β : Type} : Action β → Prop
  | .sql m => Sql.Concluding m
  | _ => True

theorem concluding_inner {β : Type} (a : Action β) (h : a.inner) : a.ending := by
  cases a <;> trivial

theorem concluding_outer {β : Type} (a : Action β) (h : a.outer) : a.ending := by
  cases a <;> trivial

section Programs
variable {α : Type}

theorem concluding_change {body : P α} (h : body.Only Action.ending) :
    (change body).Only Action.ending := only_change concluding_inner h

theorem concluding_transaction {body : P α} (h : body.Only Action.ending) :
    (transaction body).Only Action.ending :=
  only_transaction concluding_inner h

theorem concluding_sql {m : Sql α} (h : Sql.Concluding m) : (sql m).Only Action.ending :=
  Prog.Only.call h

theorem concluding_block (ports : List Int) : (block ports).Only Action.ending := by
  unfold block
  split
  · trivial
  · exact Prog.Only.call trivial

theorem concluding_unblock (ports : List Int) : (unblock ports).Only Action.ending := by
  unfold unblock
  split
  · trivial
  · exact Prog.Only.call trivial

theorem concluding_maybeReenable (userId : Int) (reason : Reason) :
    (Users.maybeReenable userId reason).Only Action.ending := by
  refine Prog.Only.bind (concluding_sql (concluding_maybeReenableRows userId reason)) fun ports =>
    ?_
  cases ports with
  | none => trivial
  | some ports => exact concluding_unblock ports

theorem concluding_setExpiry (userId : Int) (expiresAt : Option Int) (enableNow : Bool) :
    (Users.setExpiry userId expiresAt enableNow).Only Action.ending :=
  concluding_change (Prog.Only.bind (concluding_sql (concluding_setExpiryRows _ _)) fun _ =>
    Prog.Only.runIf (concluding_maybeReenable _ _))

/-- All functions of users.py, and the sync by itself. -/
theorem concluding_program {op : Op}
    (h : ∀ cfg sizing growShards, op ≠ .maintain cfg sizing growShards) :
    op.program.Only Action.ending := by
  cases op with
  | createUser a =>
    refine Prog.Only.bind ?_ fun _ => trivial
    refine Prog.Only.bind (by cases a.check <;> trivial) fun x =>
      Prog.Only.bind (Prog.Only.call trivial) fun timestamp => ?_
    exact concluding_change
      (Prog.Only.bind (concluding_sql (concluding_createUserRows _ _ _ _ _)) fun y =>
      Prog.Only.bind (concluding_unblock _) fun _ => trivial)
  | addDevice userId createdBy name =>
    refine Prog.Only.bind ?_ fun _ => trivial
    unfold Users.addDevice
    split
    · trivial
    · exact concluding_change
        (Prog.Only.bind (concluding_sql (concluding_addDeviceRows _ _ _ _)) fun y =>
        Prog.Only.bind (Prog.Only.runIf (concluding_unblock _)) fun _ => trivial)
  | deleteDevice deviceId by_ =>
    exact concluding_change
      (Prog.Only.bind (concluding_sql (concluding_deleteDeviceRows _ _)) fun _ =>
      concluding_block _)
  | rotateDevice deviceId =>
    exact concluding_change
      (Prog.Only.bind (concluding_sql (concluding_rotateDeviceRows _)) fun y =>
      Prog.Only.bind (concluding_block _) fun _ => Prog.Only.runIf (concluding_unblock _))
  | renameDevice deviceId name =>
    exact concluding_transaction (concluding_sql (concluding_renameDeviceRows _ _))
  | disableUser userId reason =>
    refine Prog.Only.bind ?_ fun _ => trivial
    unfold Users.disableUser
    split
    · trivial
    · refine concluding_change
        (Prog.Only.bind (concluding_sql (concluding_disableUserRows _ _)) fun ports => ?_)
      cases ports with
      | none => trivial
      | some ports => exact Prog.Only.bind (concluding_block _) fun _ => trivial
  | enableUser userId =>
    refine Prog.Only.bind
      (concluding_change (Prog.Only.bind (concluding_sql (concluding_enableUserRows _)) fun ports =>
      ?_)) fun _ => trivial
    cases ports with
    | none => trivial
    | some ports => exact Prog.Only.bind (concluding_unblock _) fun _ => trivial
  | setExpiry userId expiresAt enableNow => exact concluding_setExpiry userId expiresAt enableNow
  | extend userId days enableNow =>
    refine Prog.Only.bind ?_ fun _ => trivial
    unfold Users.extend
    split
    · trivial
    · exact concluding_change (Prog.Only.bind (concluding_sql (concluding_extendRows _ _)) fun _ =>
        Prog.Only.bind (concluding_setExpiry _ _ _) fun _ => trivial)
  | setTrafficLimit userId limitBytes reset enableNow =>
    change (Users.setTrafficLimit userId limitBytes reset enableNow).Only Action.ending
    unfold Users.setTrafficLimit
    split
    · trivial
    · split
      · trivial
      · exact concluding_change
          (Prog.Only.bind (concluding_sql (concluding_setTrafficLimitRows _ _ _ _)) fun _ =>
          Prog.Only.runIf (concluding_maybeReenable _ _))
  | updateProfile userId a =>
    exact concluding_transaction (concluding_sql (concluding_updateProfileRows _ _))
  | deleteUser userId =>
    exact concluding_change (Prog.Only.bind (concluding_sql (concluding_deleteUserRows _)) fun _ =>
      concluding_block _)
  | maintain cfg sizing growShards => exact absurd rfl (h cfg sizing growShards)
  | sync => exact only_syncFirewall concluding_inner

theorem concluding_applySteps (a : ApplyArgs) (targets : List (Path × Content)) :
    (applySteps a targets).Only Action.ending := by
  refine Prog.Only.bind (Prog.Only.forM (fun _ => Prog.Only.call trivial) _) fun _ =>
    Prog.Only.bind (Prog.Only.runIf ?_) fun _ => ?_
  · refine Prog.Only.bind (concluding_transaction (only_syncFirewall concluding_inner)) fun _ => ?_
    exact Prog.Only.forM (fun _ => Prog.Only.call trivial) _
  · exact Prog.Only.bind (Prog.Only.forM (fun _ => Prog.Only.call trivial) _) fun _ =>
      Prog.Only.bind (Prog.Only.call trivial) fun _ =>
      Prog.Only.bind (Prog.Only.call trivial) fun healthy => Prog.Only.runIf trivial

theorem concluding_rollBack (a : ApplyArgs) (previous : List (Path × Option Content))
    (error : Err) : (rollBack a previous error).Only Action.ending := by
  refine Prog.Only.bind (only_bestEffort ((outer_restore previous).mono concluding_outer)) fun _ =>
    ?_
  refine Prog.Only.bind (Prog.Only.forM (fun shard => only_bestEffort ?_) _) fun _ => ?_
  · exact Prog.Only.bind (Prog.Only.call trivial) fun _ => Prog.Only.call trivial
  refine Prog.Only.bind (concluding_transaction (concluding_sql concluding_abortStaged)) fun _ =>
    Prog.Only.bind (only_bestEffort ?_) fun _ => ?_
  · exact (outer_restarts _).mono concluding_outer
  refine Prog.Only.bind
    (Prog.Only.runIf (only_bestEffort
    (concluding_transaction (only_syncFirewall concluding_inner)))) fun _ => ?_
  cases error.isPoolError <;> trivial

theorem concluding_apply (cfg : Config) (sizing : Sizing) (restartShards newShards : List Int) :
    (apply cfg sizing restartShards newShards).Only Action.ending := by
  refine Prog.Only.bind ((outer_renderAll _).mono concluding_outer) fun rendered => ?_
  refine Prog.Only.bind ((outer_checkCandidates rendered).mono concluding_outer) fun x => ?_
  dsimp only
  split
  · exact Prog.Only.bind (concluding_transaction (concluding_sql concluding_abortStaged)) fun _ =>
      trivial
  refine Prog.Only.bind ((outer_readFiles _).mono concluding_outer) fun previous =>
    Prog.Only.bind ?_ fun _ => ?_
  · exact Prog.Only.tryCatch (concluding_applySteps _ _) fun e => concluding_rollBack _ previous e
  · exact concluding_transaction (concluding_sql (concluding_commitRows _))

end Programs

/-! ## The statements at hand -/

/-- The statements, if any, can come to an end where they are. -/
def proceeds (w : World) (l : Own) {β : Type} : Action β → Prop
  | .sql m => ∀ tx, ownTx (w, l) = some tx → Sql.Fed m tx.copy
  | _ => True

theorem proceeds_of_concluding {w : World} {l : Own} {β : Type} {a : Action β} (h : a.ending) :
    proceeds w l a := by
  cases a with
  | sql m => exact fun tx _ => h.fed tx.copy
  | _ => trivial

section Proceeds
variable {ok : Allow Action Choice State} {w : World} {l : Own} {α : Type}

theorem proceeds_only {p : P α} (h : p.Only Action.ending) (w : World) (l : Own) :
    Safe sem ok (interferes false) proceeds (fun _ _ _ => True) p w l :=
  Safe.only (H := Action.ending) (I := fun _ _ => True) (fun _ _ _ _ h => h)
    (fun _ _ _ ha _ => ⟨proceeds_of_concluding ha, fun _ _ _ _ => trivial⟩) h trivial

/-- The statements of the first transaction of `maintain` come to an end where they are made: at a
committed database. -/
theorem proceeds_stage (growShards : Option Int) (h : WorldOk w) (hl : l.inTx = false) :
    Safe sem ok (interferes false) proceeds (fun _ _ _ => True)
      (transaction (sql (stageRows growShards))) w l := by
  refine Safe.seq isRely_interferes (K := fun b w l => b = false ∧ WorldOk w ∧ l.inTx = false) ?_ ?_
  · refine Safe.callStable (StableQ.post (fun _ _ _ _ hr hk => ⟨hk.1, hr.2.ok hk.2.1, hk.2.2⟩) fun _
      _ _ _ _ _ => trivial) fun w₁ hr => ?_
    refine ⟨trivial, fun r w₂ l₂ hn => ?_⟩
    obtain ⟨rfl, rfl, rfl⟩ := next_inTransaction hn
    exact ⟨hl, hr.2.ok h, hl⟩
  rintro b w l ⟨rfl, h, hl⟩
  refine Safe.seq isRely_interferes (K := fun _ w l => l.inTx = true ∧ WorldOk w ∧ ∃ tx,
    w.writer = some tx ∧ tx.copy = w.db) ?_ ?_
  · refine Safe.callStable (StableQ.post (fun _ _ _ _ hr hk => ?_) fun _ _ _ _ _ _ => trivial)
      fun w₁ hr => ?_
    · obtain ⟨ht, hok, hw⟩ := hk
      obtain ⟨hdb, hwriter⟩ := hr.2.tx ht
      rw [hdb, hwriter]
      exact ⟨ht, hr.2.ok hok, hw⟩
    · refine ⟨trivial, fun r w₂ l₂ hn => ?_⟩
      rcases next_begin hn with ⟨rfl, -, rfl, rfl⟩ | ⟨msg, done, -, rfl, rfl, rfl⟩
      · exact ⟨rfl, hr.2.ok h, _, rfl, rfl⟩
      · trivial
  rintro - w l ⟨ht, h, tx, hw, hcopy⟩
  refine Safe.seq isRely_interferes (K := fun _ _ _ => True) ?_ fun _ w l _ => ?_
  · refine Safe.handle isRely_interferes (E := fun _ _ _ => True) ?_ fun e w l _ => ?_
    · refine Safe.callStable (StableQ.post (fun _ _ _ _ _ _ => trivial) fun _ _ _ _ _ _ => trivial)
        fun w₁ hr => ⟨?_, fun r w₂ l₂ _ => ?_⟩
      · intro tx' htx'
        obtain ⟨hdb, hwriter⟩ := hr.2.tx ht
        obtain ⟨-, hw'⟩ := inTx_of_ownTx htx'
        rw [hwriter, hw, Option.some.injEq] at hw'
        rw [← hw', hcopy]
        exact fed_stageRows h.1 growShards
      · cases r <;> trivial
    · refine (proceeds_only ?_ w l).mono fun out _ _ _ => by cases out <;> trivial
      exact Prog.Only.bind (Prog.Only.call trivial) fun _ => trivial
  · refine proceeds_only ?_ w l
    refine Prog.Only.bind (Prog.Only.tryCatch (Prog.Only.call trivial) fun e => ?_) fun _ => trivial
    exact Prog.Only.bind (Prog.Only.call trivial) fun o =>
      Prog.Only.bind (Prog.Only.runIf (Prog.Only.call trivial)) fun _ => trivial

theorem proceeds_maintain (cfg : Config) (sizing : Sizing) (growShards : Option Int) (h : WorldOk w)
    (hl : l.inTx = false) :
    Safe sem ok (interferes false) proceeds (fun _ _ _ => True)
      (maintain cfg sizing growShards) w l := by
  refine Safe.seq isRely_interferes (K := fun _ w l => WorldOk w ∧ l.inTx = false) ?_ ?_
  · refine Safe.callStable
      (StableQ.post (fun _ _ _ _ hr hk => ⟨hr.2.ok hk.1, hk.2⟩) fun _ _ _ _ _ _ => trivial)
      fun w₁ hr => ?_
    refine ⟨trivial, fun r w₂ l₂ hn => ?_⟩
    rcases next_lock hn with ⟨rfl, -, rfl, rfl⟩ | ⟨msg, done, -, rfl, rfl, rfl⟩
    · exact ⟨hr.2.ok h, hl⟩
    · trivial
  rintro - w l ⟨h, hl⟩
  refine Safe.tryFinally isRely_interferes (K := fun _ _ _ => True) (E := fun _ _ _ => True)
    (fun _ _ _ _ _ _ => trivial)
    (fun _ _ _ _ _ _ => trivial) (fun _ _ _ _ _ _ => trivial) ?_ (fun _ w l _ => ?_) fun _ w l _ =>
    ?_
  · refine Safe.seq isRely_interferes (K := fun _ _ _ => True) ?_ fun x w l _ => ?_
    · exact (proceeds_stage growShards h hl).mono fun out _ _ _ => by cases out <;> trivial
    · refine (proceeds_only ?_ w l).mono fun out _ _ _ => by cases out <;> trivial
      dsimp only
      split
      · trivial
      · exact Prog.Only.bind (Prog.Only.call trivial) fun _ =>
          Prog.Only.bind (concluding_apply cfg sizing _ _) fun _ => trivial
  · refine (proceeds_only ?_ w l).mono fun out _ _ _ => by cases out <;> trivial
    exact Prog.Only.call trivial
  · refine (proceeds_only ?_ w l).mono fun out _ _ _ => by cases out <;> trivial
    exact Prog.Only.call trivial

theorem proceeds_program (h : Ready ok w l) (op : Op) :
    Safe sem ok (interferes false) proceeds (fun _ _ _ => True) op.program w l := by
  by_cases hop : ∃ cfg sizing growShards, op = .maintain cfg sizing growShards
  · obtain ⟨cfg, sizing, growShards, rfl⟩ := hop
    refine Safe.seq isRely_interferes (K := fun _ _ _ => True) ?_ fun _ _ _ _ _ _ => trivial
    exact (proceeds_maintain cfg sizing growShards h.world h.inTx).mono fun out _ _ _ => by
      cases out <;> trivial
  · exact proceeds_only (concluding_program fun cfg sizing growShards he =>
      hop ⟨cfg, sizing, growShards, he⟩) w l

end Proceeds

end WebProxyPanel
