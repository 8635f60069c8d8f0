import WebProxyPanel.Limits
import WebProxyPanel.Sequential
/-!
# Operations that change nobody's access

Which firewall calls an operation can reach inside an open transaction, and which operations reach
no call that changes a port.

* `EveryCall` — what holds of every firewall call that a body can reach from a database.
* `Idle` — a call that leaves the slots on active shards as they are.
* `SameAccess` — the same slots belong to enabled users.
* `Quiet` — an operation that is refused, or after which they do; one lemma a kind.

`Quiet.everyCall`: a quiet operation reaches idle calls only. By `UserStep` the calls of an
operation turn the ports that were to be closed into those that are to be closed, and here these are
the same.
-/

namespace WebProxyPanel
open Table Effects Users

/-! ## Reachable calls -/

/-- `F` holds of every firewall call that the body can reach, on a transaction that shows `copy`. -/
def EveryCall (F : FwCall → Prop) {α : Type} : P α → DB → Prop
  | .ret _, _ | .raise _, _ => True
  | .act (.sql m) k, copy =>
    ∀ inp b copy', inp.tokens.all isTokenHex = true → m copy inp = .ok b copy' ⟨[], []⟩ →
      EveryCall F (k (.ok b)) copy'
  | .act (.fwCall call) k, copy => F call ∧ EveryCall F (k (.ok ())) copy
  | .act .now k, copy => ∀ t, EveryCall F (k (.ok t)) copy
  | .act .inTransaction k, copy => EveryCall F (k (.ok true)) copy
  | .act _ _, _ => False

/-- The call leaves every slot on an active shard as it is. -/
def Idle (w : World) (call : FwCall) : Prop :=
  ∀ s ∈ w.db.slots, OnActive w.db s → (s.port ∈ call.run w.blocked ↔ s.port ∈ w.blocked)

section Reach
variable {F : FwCall → Prop} {db : DB} {α β : Type}

theorem everyCall_sql {m : Sql α} {f : α → P β} {Q Q' : α → DB → Prop}
    (hends : m.Ends (fun _ => True) Q db) (hspec : m.wp (fun v => isTokenHex v = true) Q' db)
    (h : ∀ a db', Q a db' → Q' a db' → EveryCall F (f a) db') :
    EveryCall F ((sql m).bind f) db := by
  intro inp a db' htokens hm
  have hspec := hspec inp (List.all_eq_true.1 htokens)
  rw [hm] at hspec
  exact h a db' (hends inp a db' _ (fun _ _ => trivial) hm).1 hspec.1

theorem everyCall_refused {m : Sql α} {f : α → P β}
    (h : m.Ends (fun _ => True) (fun _ _ => False) db) : EveryCall F ((sql m).bind f) db :=
  fun inp a db' _ hm => (h inp a db' _ (fun _ _ => trivial) hm).1.elim

theorem everyCall_block {ports : List Int} {f : Unit → P β} (h : ∀ call ∈ blockCalls ports, F call)
    (hf : EveryCall F (f ()) db) : EveryCall F ((block ports).bind f) db := by
  unfold block
  unfold blockCalls at h
  split
  · exact hf
  · rename_i hne
    rw [if_neg hne] at h
    exact ⟨h _ (List.mem_singleton_self _), hf⟩

theorem everyCall_unblock {ports : List Int} {f : Unit → P β}
    (h : ∀ call ∈ unblockCalls ports, F call) (hf : EveryCall F (f ()) db) :
    EveryCall F ((unblock ports).bind f) db := by
  unfold unblock
  unfold unblockCalls at h
  split
  · exact hf
  · rename_i hne
    rw [if_neg hne] at h
    exact ⟨h _ (List.mem_singleton_self _), hf⟩

/-- Inside an open transaction `_change` only yields. -/
theorem everyCall_change {body : P α} {f : α → P β} (h : EveryCall F (body.bind f) db) :
    EveryCall F ((change body).bind f) db := h

theorem everyCall_transaction {body : P α} {f : α → P β} (h : EveryCall F (body.bind f) db) :
    EveryCall F ((transaction body).bind f) db := h

end Reach

/-! ## Access -/

/-- The same slots belong to enabled users. -/
def SameAccess (db db' : DB) : Prop := ∀ s : Slot, HasEnabledUser db' s ↔ HasEnabledUser db s

/-- A slot with a device is assigned. -/
theorem isOpen_iff {db : DB} (h : Inv db) {s : Slot} (hs : s ∈ db.slots) :
    IsOpen db s ↔ OnActive db s ∧ HasEnabledUser db s := by
  refine ⟨And.right, fun ho => ⟨?_, ho⟩⟩
  obtain ⟨-, d, hd, hid, -⟩ := ho
  exact (onActive_of_device h hd hs hid).1

theorem FwCall.mem_run_congr {call : FwCall} {p : Int} {f f' : Finset Int} (h : p ∈ f' ↔ p ∈ f) :
    p ∈ call.run f' ↔ p ∈ call.run f := by
  cases call with
  | block ports => simp [FwCall.run, h]
  | unblock ports => simp [FwCall.run, h]

/-- The transaction shows `copy`, for which the ports are as they must be. -/
structure Abreast (w : World) (copy : DB) : Prop where
  inv : Inv copy
  frame : PoolFrame w.db copy
  same : ∀ s ∈ copy.slots, OnActive copy s → (s.port ∈ w.blocked ↔ s.port ∈ blockedSet copy)

theorem Settled.abreast {w : World} (h : Settled w) : Abreast w w.db :=
  ⟨h.world.1, .refl _, (agreement_iff h.world.1).1 h.agree⟩

namespace Abreast
variable {w : World} {copy copy' : DB} {M : Int → Int → Prop} {calls : List FwCall}

theorem blockedSet_same (h : Abreast w copy) (hstep : UserStep M copy calls copy')
    (hsame : SameAccess copy copy') {s' : Slot} (hs' : s' ∈ copy'.slots) :
    s'.port ∈ blockedSet copy' ↔ s'.port ∈ blockedSet copy := by
  obtain ⟨s, hs, hp⟩ := hstep.frame.before hs'
  obtain ⟨hid, -, -, hport, -⟩ := core_eq_iff.1 hp.1
  have haccess : HasEnabledUser copy' s' ↔ HasEnabledUser copy s := by
    rw [hsame s']
    unfold HasEnabledUser
    rw [hid]
  rw [hstep.inv.mem_blockedSet hs', isOpen_iff hstep.inv hs', hport, h.inv.mem_blockedSet hs,
    isOpen_iff h.inv hs, hstep.frame.onActive hp, haccess]

/-- A step that changes nobody's access, with one call at most. -/
theorem next (h : Abreast w copy) (hstep : UserStep M copy calls copy') (hone : calls.length ≤ 1)
    (hsame : SameAccess copy copy') : (∀ call ∈ calls, Idle w call) ∧ Abreast w copy' := by
  have hnow : ∀ s' ∈ copy'.slots, OnActive copy' s' →
      (s'.port ∈ w.blocked ↔ s'.port ∈ blockedSet copy) := by
    intro s' hs' ha
    obtain ⟨s, hs, hp⟩ := hstep.frame.before hs'
    rw [(core_eq_iff.1 hp.1).2.2.2.1]
    exact h.same s hs ((hstep.frame.onActive hp).1 ha)
  refine ⟨fun call hcall s hs ha => ?_, hstep.inv, h.frame.trans hstep.frame, fun s' hs' ha => ?_⟩
  · obtain ⟨c, rfl⟩ := List.length_eq_one_iff.1 (le_antisymm hone (List.length_pos_of_mem hcall))
    obtain rfl := List.mem_singleton.1 hcall
    obtain ⟨s', hs', hp⟩ := (h.frame.trans hstep.frame).after hs
    have ha' := ((h.frame.trans hstep.frame).onActive hp).2 ha
    have hblocked := hnow s' hs' ha'
    rw [← (core_eq_iff.1 hp.1).2.2.2.1]
    calc s'.port ∈ call.run w.blocked
      _ ↔ s'.port ∈ call.run (blockedSet copy) := FwCall.mem_run_congr hblocked
      _ ↔ s'.port ∈ blockedSet copy' := hstep.fw s' hs' ha'
      _ ↔ s'.port ∈ blockedSet copy := h.blockedSet_same hstep hsame hs'
      _ ↔ s'.port ∈ w.blocked := hblocked.symm
  · exact (hnow s' hs' ha).trans (h.blockedSet_same hstep hsame hs').symm

end Abreast

theorem length_blockCalls_le (ports : List Int) : (blockCalls ports).length ≤ 1 := by
  unfold blockCalls
  split <;> simp

theorem length_unblockCalls_le (ports : List Int) : (unblockCalls ports).length ≤ 1 := by
  unfold unblockCalls
  split <;> simp

/-! ## Operations -/

/-- However the operation ends, access is the same. -/
def AccessKept (db : DB) (op : Op) : Prop :=
  ∀ db' ids calls, Effect (fun _ => True) db db' op ids calls → SameAccess db db'

/-- The rest of the body, after the operation has returned. -/
def GoesOn (w : World) (copy : DB) (op : Op) {α : Type} (rest : P α) : Prop :=
  ∀ copy' ids calls, Effect (fun _ => True) copy copy' op ids calls → Abreast w copy' →
    EveryCall (Idle w) rest copy'

section Operations
variable {w : World} {copy : DB} {α : Type} {f : Unit → P α}

/-- An operation that keeps access has made its step, with no call, with `block` or with
`unblock`. -/
theorem GoesOn.quiet {op : Op} {ids : Ids} {copy' : DB} {M : Int → Int → Prop} {rest : P α}
    (hf : GoesOn w copy op rest) (h : Abreast w copy) (hkept : AccessKept copy op)
    (hstep : UserStep M copy [] copy') (heffect : Effect (fun _ => True) copy copy' op ids []) :
    EveryCall (Idle w) rest copy' :=
  hf _ _ _ heffect (h.next hstep (Nat.zero_le _) (hkept _ _ _ heffect)).2

theorem GoesOn.block {op : Op} {ids : Ids} {copy' : DB} {M : Int → Int → Prop} {ports : List Int}
    (hf : GoesOn w copy op (f ())) (h : Abreast w copy) (hkept : AccessKept copy op)
    (hstep : UserStep M copy (blockCalls ports) copy')
    (heffect : Effect (fun _ => True) copy copy' op ids (blockCalls ports)) :
    EveryCall (Idle w) ((block ports).bind f) copy' := by
  obtain ⟨hidle, habreast⟩ := h.next hstep (length_blockCalls_le _) (hkept _ _ _ heffect)
  exact everyCall_block hidle (hf _ _ _ heffect habreast)

theorem GoesOn.unblock {op : Op} {ids : Ids} {copy' : DB} {M : Int → Int → Prop}
    {ports : List Int} (hf : GoesOn w copy op (f ())) (h : Abreast w copy)
    (hkept : AccessKept copy op) (hstep : UserStep M copy (unblockCalls ports) copy')
    (heffect : Effect (fun _ => True) copy copy' op ids (unblockCalls ports)) :
    EveryCall (Idle w) ((unblock ports).bind f) copy' := by
  obtain ⟨hidle, habreast⟩ := h.next hstep (length_unblockCalls_le _) (hkept _ _ _ heffect)
  exact everyCall_unblock hidle (hf _ _ _ heffect habreast)

theorem everyCall_createUser (h : Abreast w copy) {a : NewUser}
    (hkept : AccessKept copy (.createUser a)) (hf : GoesOn w copy (.createUser a) (f ())) :
    EveryCall (Idle w) ((Op.createUser a).program.bind f) copy := by
  simp only [Op.program, createUser, Prog.bind_eq, Prog.bind_assoc]
  cases a.check with
  | error e => trivial
  | ok x =>
    obtain ⟨name, createdBy, reset⟩ := x
    intro timestamp
    refine everyCall_change ?_
    simp only [Prog.bind_assoc]
    refine everyCall_sql (Ends.of_sql (ends_createUser a name createdBy reset timestamp copy))
      (createUserRows_spec (M := fun _ _ => False) h.inv a name createdBy reset timestamp) fun r
      copy' hleft hstep => ?_
    obtain ⟨userId, deviceId, port⟩ := r
    exact hf.unblock h hkept hstep.1 (Ends.of_unblock hleft).1

theorem everyCall_addDevice (h : Abreast w copy) {userId : Int} {createdBy : String}
    {name : Option String} (hkept : AccessKept copy (.addDevice userId createdBy name))
    (hf : GoesOn w copy (.addDevice userId createdBy name) (f ())) :
    EveryCall (Idle w) ((Op.addDevice userId createdBy name).program.bind f) copy := by
  simp only [Op.program, addDevice, Prog.bind_assoc]
  cases deviceByOf createdBy with
  | none => trivial
  | some by_ =>
    refine everyCall_change ?_
    simp only [Prog.bind_eq, Prog.bind_assoc]
    refine everyCall_sql (Ends.of_sql (ends_addDevice userId by_ createdBy name copy))
      (addDeviceRows_spec (M := fun _ _ => False) h.inv userId by_ createdBy name) fun r copy'
      hleft hstep => ?_
    obtain ⟨u, deviceId, port⟩ := r
    have hstep := hstep.1
    dsimp only at hstep ⊢
    simp only [Prog.bind_eq] at hleft
    unfold Prog.runIf at hleft ⊢
    by_cases hen : u.enabled ≠ 0
    · rw [if_pos hen] at hleft hstep ⊢
      exact hf.unblock h hkept hstep (Ends.of_unblock hleft).1
    · rw [if_neg hen] at hleft hstep ⊢
      exact hf.quiet h hkept hstep hleft.1

theorem everyCall_deleteDevice (h : Abreast w copy) {deviceId : Int} {by_ : String}
    (hkept : AccessKept copy (.deleteDevice deviceId by_))
    (hf : GoesOn w copy (.deleteDevice deviceId by_) (f ())) :
    EveryCall (Idle w) ((Op.deleteDevice deviceId by_).program.bind f) copy := by
  refine everyCall_change ?_
  simp only [Prog.bind_eq, Prog.bind_assoc]
  refine everyCall_sql (Ends.of_sql (ends_deleteDevice deviceId by_ copy))
    (deleteDeviceRows_spec h.inv deviceId by_) fun port copy' hleft hstep => ?_
  rw [← Prog.bind_ret (block [port])] at hleft
  exact hf.block h hkept hstep (Ends.of_block hleft).1

/-- For an enabled user the old slot loses its access and the new one gains it. -/
theorem everyCall_rotateDevice (h : Abreast w copy) {deviceId : Int}
    (hshut : ∀ d ∈ copy.devices, d.id = deviceId → ∀ u ∈ copy.users, u.id = d.userId →
      u.enabled = 0)
    (hkept : AccessKept copy (.rotateDevice deviceId))
    (hf : GoesOn w copy (.rotateDevice deviceId) (f ())) :
    EveryCall (Idle w) ((Op.rotateDevice deviceId).program.bind f) copy := by
  refine everyCall_change ?_
  simp only [Prog.bind_eq, Prog.bind_assoc]
  have hdisabled : (rotateDeviceRows deviceId).Ends (fun _ => True)
      (fun r _ => r.2.1.enabled = 0) copy := by
    refine Sql.Ends.bind (ends_device fun d hd s hs hid hslot =>
      Sql.Ends.bind (ends_user fun u hu huid => ?_))
    refine Sql.Ends.bind (ends_takeFreeSlot fun slot db₁ _ _ =>
      Sql.Ends.bind (ends_releaseSlot fun db₂ _ _ _ => ?_))
    refine Sql.Ends.bind (Sql.Ends.execute fun _ =>
      Sql.Ends.bind (ends_logEvent fun ts _ => Sql.Ends.pure ?_))
    exact hshut d hd hid u hu huid
  refine everyCall_sql ((Ends.of_sql (ends_rotateDevice deviceId copy)).and hdisabled)
    (rotateDeviceRows_spec h.inv deviceId) fun r copy' hleft hstep => ?_
  obtain ⟨old, u, port⟩ := r
  obtain ⟨hleft, h0⟩ := hleft
  have hstep := hstep.1
  have hen : ¬ u.enabled ≠ 0 := not_not.2 h0
  dsimp only at hleft hstep ⊢
  unfold Prog.runIf at hleft ⊢
  rw [if_neg hen] at hleft hstep ⊢
  rw [List.append_nil] at hstep
  exact hf.block h hkept hstep (Ends.of_block hleft).1

theorem everyCall_renameDevice (h : Abreast w copy) {deviceId : Int} {name : String}
    (hkept : AccessKept copy (.renameDevice deviceId name))
    (hf : GoesOn w copy (.renameDevice deviceId name) (f ())) :
    EveryCall (Idle w) ((Op.renameDevice deviceId name).program.bind f) copy := by
  refine everyCall_transaction (everyCall_sql (Ends.of_sql (ends_renameDevice deviceId name copy))
    (renameDeviceRows_spec (M := fun _ _ => False) h.inv deviceId name) fun _ copy'
    hleft hstep => ?_)
  exact hf.quiet h hkept hstep hleft.1

theorem everyCall_updateProfile (h : Abreast w copy) {userId : Int} {a : ProfileUpdate}
    (hkept : AccessKept copy (.updateProfile userId a))
    (hf : GoesOn w copy (.updateProfile userId a) (f ())) :
    EveryCall (Idle w) ((Op.updateProfile userId a).program.bind f) copy := by
  refine everyCall_transaction (everyCall_sql (Ends.of_sql (ends_updateProfile userId a copy))
    (updateProfileRows_spec (M := fun _ _ => False) h.inv userId a) fun _ copy' hleft hstep => ?_)
  exact hf.quiet h hkept hstep hleft.1

theorem everyCall_disableUser (h : Abreast w copy) {userId : Int} {text : String}
    (hkept : AccessKept copy (.disableUser userId text))
    (hf : GoesOn w copy (.disableUser userId text) (f ())) :
    EveryCall (Idle w) ((Op.disableUser userId text).program.bind f) copy := by
  simp only [Op.program, disableUser, Prog.bind_assoc]
  cases hreason : reasonOf text with
  | none => trivial
  | some reason =>
    refine everyCall_change ?_
    simp only [Prog.bind_eq, Prog.bind_assoc]
    refine everyCall_sql (Ends.of_sql (ends_disableUser userId hreason copy))
      (disableUserRows_spec (M := fun _ _ => False) h.inv userId reason) fun r copy' hleft hstep =>
      ?_
    cases r with
    | none => exact hf.quiet h hkept hstep hleft.1
    | some ports =>
      simp only [Prog.bind_assoc]
      exact hf.block h hkept hstep (Ends.of_block hleft).1

theorem everyCall_enableUser (h : Abreast w copy) {userId : Int}
    (hkept : AccessKept copy (.enableUser userId))
    (hf : GoesOn w copy (.enableUser userId) (f ())) :
    EveryCall (Idle w) ((Op.enableUser userId).program.bind f) copy := by
  simp only [Op.program, enableUser, Prog.bind_assoc]
  refine everyCall_change ?_
  simp only [Prog.bind_eq, Prog.bind_assoc]
  refine everyCall_sql (Ends.of_sql (ends_enableUser userId copy))
    (enableUserRows_spec (M := fun _ _ => False) h.inv userId) fun r copy' hleft hstep => ?_
  have hstep := hstep.1
  cases r with
  | none => exact hf.quiet h hkept hstep hleft.1
  | some ports =>
    simp only [Prog.bind_assoc]
    exact hf.unblock h hkept hstep (Ends.of_unblock hleft).1

theorem everyCall_deleteUser (h : Abreast w copy) {userId : Int}
    (hkept : AccessKept copy (.deleteUser userId))
    (hf : GoesOn w copy (.deleteUser userId) (f ())) :
    EveryCall (Idle w) ((Op.deleteUser userId).program.bind f) copy := by
  refine everyCall_change ?_
  simp only [Prog.bind_eq, Prog.bind_assoc]
  refine everyCall_sql (Ends.of_sql (ends_deleteUser userId copy))
    (deleteUserRows_spec h.inv userId) fun ports copy' hleft hstep => ?_
  rw [← Prog.bind_ret (block ports)] at hleft
  exact hf.block h hkept hstep (Ends.of_block hleft).1

/-- `_maybe_reenable` after a row has been changed by `g`. -/
theorem everyCall_maybeReenable {db : DB} {g : User → User} (hg : ∀ u, (g u).id = u.id)
    {userId : Int} {reason : Reason} {enableNow : Bool} {op : Op} (h : Abreast w copy)
    (hchanged : Changed g userId copy db) (huser : ∃ u ∈ copy.users, u.id = userId)
    (hstep : UserStep (fun _ _ => False) copy [] db)
    (heffect : ∀ db' calls, Setter (fun _ => True) enableNow reason g userId copy db' calls →
      Effect (fun _ => True) copy db' op .none calls)
    (hkept : AccessKept copy op) (hf : GoesOn w copy op (f ())) :
    EveryCall (Idle w) ((Prog.runIf enableNow (maybeReenable userId reason)).bind f) db := by
  unfold Prog.runIf
  split
  · rename_i hen
    subst hen
    simp only [maybeReenable, Prog.bind_eq, Prog.bind_assoc]
    refine everyCall_sql (Ends.of_sql (ends_maybeReenable hg hchanged))
      (maybeReenableRows_spec (M := fun _ _ => False) hstep.inv userId reason) fun r copy'
      hleft hstep' => ?_
    have hstep := hstep.trans hstep'.1
    cases r with
    | none =>
      exact hf.quiet h hkept hstep (heffect _ _ hleft.1)
    | some ports =>
      dsimp only at hleft
      rw [← Prog.bind_ret (unblock ports)] at hleft
      exact hf.unblock h hkept hstep (heffect _ _ (Ends.of_unblock hleft).1)
  · rename_i hen
    obtain ⟨u, hu, huid⟩ := huser
    exact hf.quiet h hkept hstep (heffect db []
      (.changed hu huid (fun he => absurd he hen) hchanged.users hchanged.devices))

theorem everyCall_setExpiry (h : Abreast w copy) {userId : Int} {expiresAt : Option Int}
    {enableNow : Bool} {op : Op}
    (heffect : ∀ db' calls, Setter (fun _ => True) enableNow .expired (withExpiry expiresAt) userId
      copy db' calls → Effect (fun _ => True) copy db' op .none calls)
    (hkept : AccessKept copy op) (hf : GoesOn w copy op (f ())) :
    EveryCall (Idle w) ((setExpiry userId expiresAt enableNow).bind f) copy := by
  refine everyCall_change ?_
  simp only [Prog.bind_eq, Prog.bind_assoc]
  refine everyCall_sql (ends_setExpiryRows userId expiresAt copy)
    (setExpiryRows_spec (M := fun _ _ => False) h.inv userId expiresAt) fun _ db hends hstep => ?_
  exact everyCall_maybeReenable (g := withExpiry expiresAt) (fun _ => rfl) h hends.2 hends.1 hstep
    heffect hkept hf

theorem everyCall_extend (h : Abreast w copy) {userId days : Int} {enableNow : Bool}
    (hkept : AccessKept copy (.extend userId days enableNow))
    (hf : GoesOn w copy (.extend userId days enableNow) (f ())) :
    EveryCall (Idle w) ((Op.extend userId days enableNow).program.bind f) copy := by
  simp only [Op.program, extend, Prog.bind_assoc]
  split
  · trivial
  rename_i hdays
  refine everyCall_change ?_
  simp only [Prog.bind_eq, Prog.bind_assoc]
  have hends : (extendRows userId days).Ends (fun _ => True)
      (fun e db => db = copy ∧ ∃ t, ∃ u ∈ copy.users,
      u.id = userId ∧ e = max t (u.expiresAt.getD 0) + days * day) copy := by
    refine Sql.Ends.bind (ends_user fun u hu huid =>
      Sql.Ends.bind (Sql.Ends.now fun t _ => Sql.Ends.pure ?_))
    exact ⟨rfl, t, u, hu, huid, rfl⟩
  refine everyCall_sql hends (extendRows_spec userId days) fun expiresAt db hends _ => ?_
  obtain ⟨rfl, t, u, hu, huid, rfl⟩ := hends
  exact everyCall_setExpiry h (fun db' calls hset => .extend trivial (not_le.1 hdays) hu huid hset)
    hkept hf

theorem everyCall_setTrafficLimit (h : Abreast w copy) {userId : Int} {limit : Option Int}
    {text : String} {enableNow : Bool}
    (hkept : AccessKept copy (.setTrafficLimit userId limit text enableNow))
    (hf : GoesOn w copy (.setTrafficLimit userId limit text enableNow) (f ())) :
    EveryCall (Idle w) ((Op.setTrafficLimit userId limit text enableNow).program.bind f) copy := by
  simp only [Op.program, setTrafficLimit]
  cases hreset : resetOf text with
  | none => trivial
  | some reset =>
    dsimp only
    split
    · trivial
    refine everyCall_change ?_
    simp only [Prog.bind_eq, Prog.bind_assoc]
    refine everyCall_sql (ends_setTrafficLimitRows userId limit reset text copy)
      (setTrafficLimitRows_spec (M := fun _ _ => False) h.inv userId limit reset text) fun _ db
      hends hstep => ?_
    exact everyCall_maybeReenable (g := withLimit limit reset) (fun _ => rfl) h
      hends.2 hends.1 hstep (fun db' calls hset => .setTrafficLimit hreset hset) hkept hf

end Operations

/-! ## Kinds of quiet operations -/

/-- No user with the id is enabled; if there is no such user, operations on it are refused. -/
def Shut (db : DB) (userId : Int) : Prop := ∀ u ∈ db.users, u.id = userId → u.enabled = 0

/-- The device, if it is there, belongs to no enabled user. -/
def ShutDevice (db : DB) (deviceId : Int) : Prop :=
  ∀ d ∈ db.devices, d.id = deviceId → Shut db d.userId

/-- Whoever has the id is enabled. -/
def LetIn (db : DB) (userId : Int) : Prop := ∀ u ∈ db.users, u.id = userId → u.enabled ≠ 0

instance (db : DB) (userId : Int) : Decidable (Shut db userId) := by unfold Shut; infer_instance
instance (db : DB) (userId : Int) : Decidable (LetIn db userId) := by unfold LetIn; infer_instance
instance (db : DB) (deviceId : Int) : Decidable (ShutDevice db deviceId) :=
  by unfold ShutDevice; infer_instance

/-- An operation that makes no call, or only calls for what is already so. -/
inductive Quiet (db : DB) : Op → Prop
  /-- The arguments are refused before the transaction. -/
  | refused {op : Op} {e : Err} : op.program = .raise e → Quiet db op
  | taken {a : NewUser} : tgIdTaken a.tgId none db = true → Quiet db (.createUser a)
  /-- The user's devices are as many as their limit. -/
  | full {userId : Int} {createdBy : String} {name : Option String} :
      (∀ u ∈ db.users, u.id = userId → ∀ n ∈ limitOf db u, n ≤ deviceCount userId db) →
      Quiet db (.addDevice userId createdBy name)
  | rotateDevice {deviceId : Int} : ShutDevice db deviceId → Quiet db (.rotateDevice deviceId)
  | kept {op : Op} : op.isUser = true → (∀ deviceId, op ≠ .rotateDevice deviceId) →
      AccessKept db op → Quiet db op

section Kinds
variable {db db' : DB} {userId deviceId : Int}

/-- Some device of the user is on the slot. -/
def Holds (db : DB) (slotId userId : Int) : Prop :=
  ∃ d ∈ db.devices, d.slotId = slotId ∧ d.userId = userId

def Admitted (db : DB) (userId : Int) : Prop := ∃ u ∈ db.users, u.id = userId ∧ u.enabled = 1

theorem holds_iff {slotId : Int} :
    Holds db slotId userId ↔ (slotId, userId) ∈ db.devices.map fun d => (d.slotId, d.userId) := by
  simp [Holds]

theorem admitted_iff :
    Admitted db userId ↔ (userId, 1) ∈ db.users.map fun u => (u.id, u.enabled) := by
  simp [Admitted]

theorem Shut.not_admitted (h : Shut db userId) : ¬ Admitted db userId := by
  rintro ⟨u, hu, hid, hen⟩
  rw [h u hu hid] at hen
  simp at hen

/-- The same users are enabled, and keep their slots. -/
theorem sameAccess_of (husers : ∀ id, Admitted db' id ↔ Admitted db id)
    (hdevices : ∀ slotId id, Admitted db id → (Holds db' slotId id ↔ Holds db slotId id)) :
    SameAccess db db' := by
  intro s
  constructor
  · rintro ⟨d, hd, hslot, hu⟩
    have hu := (husers d.userId).1 hu
    obtain ⟨d', hd', hslot', hid⟩ := (hdevices s.id d.userId hu).1 ⟨d, hd, hslot, rfl⟩
    exact ⟨d', hd', hslot', hid ▸ hu⟩
  · rintro ⟨d, hd, hslot, hu⟩
    obtain ⟨d', hd', hslot', hid⟩ := (hdevices s.id d.userId hu).2 ⟨d, hd, hslot, rfl⟩
    exact ⟨d', hd', hslot', hid ▸ (husers d.userId).2 hu⟩

theorem quiet_renameDevice (name : String) : Quiet db (.renameDevice deviceId name) := by
  refine .kept rfl (by simp) fun db' ids calls h => ?_
  cases h with
  | renameDevice husers hdevices =>
    refine sameAccess_of (fun id => by rw [Admitted, husers, Admitted]) fun slotId id _ => ?_
    rw [holds_iff, hdevices, map_update (fun d : Device => (d.slotId, d.userId)) ?_, holds_iff]
    exact fun _ _ => rfl

theorem quiet_updateProfile (a : ProfileUpdate) : Quiet db (.updateProfile userId a) := by
  refine .kept rfl (by simp) fun db' ids calls h => ?_
  cases h with
  | updateProfile husers hdevices =>
    refine sameAccess_of (fun id => ?_) fun slotId id _ => by rw [Holds, hdevices, Holds]
    have hmap := congrArg (List.map fun x : Standing => (x.id, x.enabled)) husers
    rw [List.map_map, List.map_map] at hmap
    rw [admitted_iff, admitted_iff]
    exact iff_of_eq (congrArg ((id, 1) ∈ ·) hmap)

theorem sameAccess_of_eq (husers : db'.users = db.users) (hdevices : db'.devices = db.devices) :
    SameAccess db db' :=
  sameAccess_of (fun id => by rw [Admitted, husers, Admitted]) fun slotId id _ => by
    rw [Holds, hdevices, Holds]

/-- A disabled user stays as they are. -/
theorem Shut.disableUser (h : Shut db userId) {text : String} {ids : Ids} {calls : List FwCall}
    (heffect : Effect (fun _ => True) db db' (.disableUser userId text) ids calls) :
    db'.users = db.users ∧ db'.devices = db.devices := by
  cases heffect with
  | disableUser hreason hu hid hen => exact absurd (h _ hu hid) hen
  | wasDisabled hu hid h0 husers hdevices => exact ⟨husers, hdevices⟩

theorem LetIn.enableUser (h : LetIn db userId) {ids : Ids} {calls : List FwCall}
    (heffect : Effect (fun _ => True) db db' (.enableUser userId) ids calls) :
    db'.users = db.users ∧ db'.devices = db.devices := by
  cases heffect with
  | enableUser hu hid h0 => exact absurd h0 (h _ hu hid)
  | wasEnabled hu hid hen husers hdevices => exact ⟨husers, hdevices⟩

theorem quiet_disableUser (h : Shut db userId) (text : String) :
    Quiet db (.disableUser userId text) :=
  .kept rfl (by simp) fun _ _ _ heffect =>
    sameAccess_of_eq (h.disableUser heffect).1 (h.disableUser heffect).2

theorem quiet_enableUser (h : LetIn db userId) : Quiet db (.enableUser userId) :=
  .kept rfl (by simp) fun _ _ _ heffect =>
    sameAccess_of_eq (h.enableUser heffect).1 (h.enableUser heffect).2

theorem LetIn.not_reenabled (h : LetIn db userId) {u : User} (hu : u ∈ db.users)
    (hid : u.id = userId) {reason : Reason} {g : User → User}
    (hg : ∀ u, (g u).enabled = u.enabled) : ¬ Reenabled (fun _ => True) reason (g u) :=
  fun hre => h u hu hid ((hg u).symm.trans hre.1)

/-- A setter leaves an enabled user enabled. -/
theorem Setter.letIn {enableNow : Bool} {reason : Reason} {g : User → User} {calls : List FwCall}
    (hset : Setter (fun _ => True) enableNow reason g userId db db' calls)
    (hg : ∀ u, (g u).id = u.id ∧ (g u).enabled = u.enabled) (h : LetIn db userId) :
    LetIn db' userId := by
  cases hset with
  | reenabled hu hid _ hre => exact absurd hre (h.not_reenabled hu hid fun u => (hg u).2)
  | changed _ _ _ husers =>
    intro u' hu' hid'
    rw [husers] at hu'
    obtain ⟨u, hu, rfl⟩ := Table.mem_update.1 hu'
    split at hid' <;> rename_i hp
    · rw [if_pos hp, (hg u).2]
      exact h u hu (of_decide_eq_true hp)
    · rw [if_neg hp]
      exact h u hu hid'

/-- A setter that lets nobody in. -/
theorem Setter.sameAccess {enableNow : Bool} {reason : Reason} {g : User → User}
    {calls : List FwCall} (h : Setter (fun _ => True) enableNow reason g userId db db' calls)
    (hg : ∀ u, (g u).id = u.id ∧ (g u).enabled = u.enabled)
    (hkeeps : enableNow = true → ∀ u ∈ db.users, u.id = userId →
      ¬ Reenabled (fun _ => True) reason (g u)) : SameAccess db db' := by
  cases h with
  | reenabled hu hid hen hre => exact absurd hre (hkeeps hen _ hu hid)
  | changed hu hid _ husers hdevices =>
    refine sameAccess_of (fun id => ?_) fun slotId id _ => by rw [Holds, hdevices, Holds]
    rw [admitted_iff, husers, map_update (fun u : User => (u.id, u.enabled)) ?_, admitted_iff]
    exact fun u _ => Prod.ext (hg u).1 (hg u).2

theorem quiet_setExpiry {expiresAt : Option Int} {enableNow : Bool}
    (h : enableNow = true → ∀ u ∈ db.users, u.id = userId →
      ¬ Reenabled (fun _ => True) .expired (withExpiry expiresAt u)) :
    Quiet db (.setExpiry userId expiresAt enableNow) := by
  refine .kept rfl (by simp) fun db' ids calls heffect => ?_
  cases heffect with
  | setExpiry hset => exact hset.sameAccess (fun _ => ⟨rfl, rfl⟩) h

theorem quiet_extend {days : Int} {enableNow : Bool}
    (h : enableNow = true → ∀ u ∈ db.users, u.id = userId → ∀ e,
      ¬ Reenabled (fun _ => True) .expired (withExpiry (some e) u)) :
    Quiet db (.extend userId days enableNow) := by
  refine .kept rfl (by simp) fun db' ids calls heffect => ?_
  cases heffect with
  | extend _ _ _ _ hset =>
    exact hset.sameAccess (fun _ => ⟨rfl, rfl⟩) fun hen u hu hid => h hen u hu hid _

theorem quiet_setTrafficLimit {limit : Option Int} {text : String} {enableNow : Bool}
    (h : enableNow = true → ∀ u ∈ db.users, u.id = userId → ∀ reset,
      ¬ Reenabled (fun _ => True) .trafficLimit (withLimit limit reset u)) :
    Quiet db (.setTrafficLimit userId limit text enableNow) := by
  refine .kept rfl (by simp) fun db' ids calls heffect => ?_
  cases heffect with
  | setTrafficLimit _ hset =>
    exact hset.sameAccess (fun _ => ⟨rfl, rfl⟩) fun hen u hu hid => h hen u hu hid _

theorem quiet_addDevice (h : Shut db userId) (createdBy : String) (name : Option String) :
    Quiet db (.addDevice userId createdBy name) := by
  refine .kept rfl (by simp) fun db' ids calls heffect => ?_
  cases heffect with
  | @addDevice _ _ _ u d p hu hid hnext howner hport husers hdevices =>
    refine sameAccess_of (fun id => by rw [Admitted, husers, Admitted]) fun slotId id hadmitted =>
      ?_
    have hne : d.userId ≠ id := fun he => h.not_admitted (howner.symm.trans he ▸ hadmitted)
    simp [Holds, hdevices, hne]

theorem quiet_deleteDevice (h : ShutDevice db deviceId) (by_ : String) :
    Quiet db (.deleteDevice deviceId by_) := by
  refine .kept rfl (by simp) fun db' ids calls heffect => ?_
  cases heffect with
  | deleteDevice hd hid husers hdevices =>
    refine sameAccess_of (fun id => by rw [Admitted, husers, Admitted]) fun slotId id hadmitted =>
      ?_
    unfold Holds
    rw [hdevices]
    constructor
    · rintro ⟨d, hd, hslot⟩
      exact ⟨d, (mem_delete.1 hd).1, hslot⟩
    · rintro ⟨d, hd, hslot, howner⟩
      have hne : d.id ≠ deviceId := fun he => (h d hd he).not_admitted (howner ▸ hadmitted)
      exact ⟨d, mem_delete.2 ⟨hd, decide_eq_false hne⟩, hslot, howner⟩

theorem quiet_deleteUser (h : Shut db userId) : Quiet db (.deleteUser userId) := by
  refine .kept rfl (by simp) fun db' ids calls heffect => ?_
  cases heffect with
  | deleteUser hu hid husers hdevices =>
    have hother : ∀ {id}, Admitted db id → id ≠ userId :=
      fun hadmitted he => h.not_admitted (he ▸ hadmitted)
    refine sameAccess_of (fun id => ?_) fun slotId id hadmitted => ?_
    · unfold Admitted
      rw [husers]
      constructor
      · rintro ⟨u, hu, huid, hen⟩
        exact ⟨u, (mem_delete.1 hu).1, huid, hen⟩
      · rintro ⟨u, hu, huid, hen⟩
        have hne : u.id ≠ userId := hother ⟨u, hu, rfl, hen⟩
        exact ⟨u, mem_delete.2 ⟨hu, decide_eq_false hne⟩, huid, hen⟩
    · unfold Holds
      rw [hdevices]
      constructor
      · rintro ⟨d, hd, hslot⟩
        exact ⟨d, (mem_delete.1 hd).1, hslot⟩
      · rintro ⟨d, hd, hslot, howner⟩
        have hne : d.userId ≠ userId := howner ▸ hother hadmitted
        exact ⟨d, mem_delete.2 ⟨hd, decide_eq_false hne⟩, hslot, howner⟩

/-- Only the slot of a device changes that belongs to nobody who is enabled. -/
theorem accessKept_rotateDevice (h : ShutDevice db deviceId) :
    AccessKept db (.rotateDevice deviceId) := by
  intro db' ids calls heffect
  cases heffect with
  | rotateDevice hd hid hu huid hport husers hdevices =>
    refine sameAccess_of (fun id => by rw [Admitted, husers, Admitted]) fun slotId id hadmitted =>
      ?_
    have hother : ∀ d ∈ db.devices, d.userId = id → ¬ decide (d.id = deviceId) = true :=
      fun d hd howner he =>
      (h d hd (of_decide_eq_true he)).not_admitted (howner ▸ hadmitted)
    unfold Holds
    rw [hdevices]
    constructor
    · rintro ⟨d', hd', hslot, howner⟩
      obtain ⟨d, hd, rfl⟩ := mem_update.1 hd'
      have howner' : d.userId = id := by
        rw [← howner]
        split <;> rfl
      rw [if_neg (hother d hd howner')] at hslot
      exact ⟨d, hd, hslot, howner'⟩
    · rintro ⟨d, hd, hslot, howner⟩
      exact ⟨d, mem_update.2 ⟨d, hd, if_neg (hother d hd howner)⟩, hslot, howner⟩

end Kinds

/-! ## The rule -/

section Rule
variable {w : World} {copy : DB} {α : Type} {f : Unit → P α}

theorem everyCall_taken {a : NewUser} (h : tgIdTaken a.tgId none copy = true) :
    EveryCall (Idle w) ((Op.createUser a).program.bind f) copy := by
  simp only [Op.program, createUser, Prog.bind_eq, Prog.bind_assoc]
  cases a.check with
  | error e => trivial
  | ok x =>
    intro timestamp
    refine everyCall_change ?_
    simp only [Prog.bind_assoc]
    refine everyCall_refused (Sql.Ends.bind (Sql.Ends.query ?_))
    rw [if_pos h]
    exact Sql.Ends.raise

theorem everyCall_full {userId : Int} {createdBy : String} {name : Option String}
    (h : ∀ u ∈ copy.users, u.id = userId → ∀ n ∈ limitOf copy u, n ≤ deviceCount userId copy) :
    EveryCall (Idle w) ((Op.addDevice userId createdBy name).program.bind f) copy := by
  simp only [Op.program, addDevice, Prog.bind_assoc]
  cases deviceByOf createdBy with
  | none => trivial
  | some by_ =>
    refine everyCall_change ?_
    simp only [Prog.bind_eq, Prog.bind_assoc]
    refine everyCall_refused (Sql.Ends.bind (ends_user fun u hu huid => ?_))
    split
    · exact Sql.Ends.raise
    refine Sql.Ends.bind (ends_limit fun limit hlimit => Sql.Ends.bind (Sql.Ends.query ?_))
    rw [if_pos (h u hu huid limit hlimit)]
    exact Sql.Ends.raise

/-- A quiet operation reaches idle calls only. -/
theorem Quiet.everyCall {op : Op} (hq : Quiet copy op) (h : Abreast w copy)
    (hf : GoesOn w copy op (f ())) : EveryCall (Idle w) (op.program.bind f) copy := by
  cases hq with
  | refused he =>
    rw [he]
    trivial
  | taken htaken => exact everyCall_taken htaken
  | full hfull => exact everyCall_full hfull
  | rotateDevice hshut => exact everyCall_rotateDevice h hshut (accessKept_rotateDevice hshut) hf
  | kept hu hrotate hkept =>
    cases op with
    | createUser a => exact everyCall_createUser h hkept hf
    | addDevice userId createdBy name => exact everyCall_addDevice h hkept hf
    | deleteDevice deviceId by_ => exact everyCall_deleteDevice h hkept hf
    | rotateDevice deviceId => exact absurd rfl (hrotate deviceId)
    | renameDevice deviceId name => exact everyCall_renameDevice h hkept hf
    | disableUser userId text => exact everyCall_disableUser h hkept hf
    | enableUser userId => exact everyCall_enableUser h hkept hf
    | setExpiry userId expiresAt enableNow =>
      exact everyCall_setExpiry h (fun _ _ hset => .setExpiry hset) hkept hf
    | extend userId days enableNow => exact everyCall_extend h hkept hf
    | setTrafficLimit userId limit text enableNow => exact everyCall_setTrafficLimit h hkept hf
    | updateProfile userId a => exact everyCall_updateProfile h hkept hf
    | deleteUser userId => exact everyCall_deleteUser h hkept hf
    | maintain cfg sizing growShards => simp [Op.isUser] at hu
    | sync => simp [Op.isUser] at hu

end Rule

end WebProxyPanel
