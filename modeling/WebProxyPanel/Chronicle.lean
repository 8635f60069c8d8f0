import WebProxyPanel.Journal
import WebProxyPanel.Global
import WebProxyPanel.People
/-!
# The journal of every run

Each operation appends, in the transaction that changes the tables, entries that tell just that
change (`told_*`). The write lock puts the transactions of all processes in one order, so whatever
they do and wherever they stop, the journal tells what the tables hold (`journal_tells`).
-/

namespace WebProxyPanel
namespace Journal
open Table Effects Users

/-! ## Users and devices -/

section Operations
variable {T : Int → Prop} {D : DB}

theorem createdByOf_of_check {a : NewUser} {name : String} {createdBy : CreatedBy} {reset : Reset}
    (h : a.check = .ok (name, createdBy, reset)) : createdByOf a.createdBy = some createdBy := by
  unfold NewUser.check at h
  simp only [bind, Except.bind] at h
  cases hname : cleanName a.name with
  | error e => simp [hname] at h
  | ok n =>
    cases hby : createdByOf a.createdBy with
    | none => simp [hname, hby] at h
    | some c =>
      cases hreset : resetOf a.trafficReset with
      | none => simp [hname, hby, hreset] at h
      | some r =>
        simp only [hname, hby, hreset, Option.elim] at h
        split at h
        · simp at h
        split at h
        · simp at h
        · simpa using (congrArg (·.2.1) (Except.ok.inj h))

theorem told_createUser {a : NewUser} {createdBy : CreatedBy}
    (hby : createdByOf a.createdBy = some createdBy) (name : String) (reset : Reset)
    (timestamp : Int) (D : DB) :
    Ends T (do
      let (userId, deviceId, port) ← sql (createUserRows a name createdBy reset timestamp)
      unblock [port]
      pure (userId, deviceId)) (fun _ db' _ => Told D db') D [] := by
  refine Ends.bind (Ends.sql (Sql.Ends.bind (Sql.Ends.query ?_)))
  split
  · exact Sql.Ends.raise
  refine Sql.Ends.bind (Sql.Ends.query (Sql.Ends.bind (Sql.Ends.execute fun _ => Sql.Ends.bind ?_)))
  refine ends_attachDevice fun d db₁ p _ huser _ husers hdevices hevents => ?_
  refine Sql.Ends.bind (ends_logEvent fun ts hc => Sql.Ends.pure (Ends.bind (Ends.unblock ?_)))
  refine Told.entry hc hevents fun hD A hA => ?_
  have htell : tellUser "user_created" ("by=" ++ a.createdBy ++ " device=" ++ toString d.id)
      (A (nextRowid (D.users.map (·.id)))) =
      some ⟨true, none, [toString d.id], none, none, none⟩ := by
    simp only [tellUser, field_created hby, Option.map_some, if_true]
  rw [htell]
  exact hA.created (u := a.row _ name createdBy reset timestamp) hD rfl rfl rfl huser
    husers hdevices

/-- The entries about devices, on an account. -/
theorem tell_deviceAdded (d : Int) (by_ : String) (a : Option Account) :
    tellUser "device_added" ("device=" ++ toString d ++ " by=" ++ by_) a =
      a.map fun a => { a with devices := a.devices ++ [toString d] } := by
  simp only [tellUser, Account.tell, field_device]
  rfl

theorem tell_deviceDeleted (d : Int) (by_ : String) (a : Option Account) :
    tellUser "device_deleted" ("device=" ++ toString d ++ " by=" ++ by_) a =
      a.map fun a => { a with devices := a.devices.filter fun t => some t ≠ some (toString d) } := by
  simp only [tellUser, Account.tell, field_device]
  rfl

theorem told_addDevice (userId : Int) (createdBy : DeviceBy) (text : String) (name : Option String)
    (D : DB) :
    Ends T (do
      let (u, deviceId, port) ← sql (addDeviceRows userId createdBy text name)
      Prog.runIf (u.enabled ≠ 0) (unblock [port])
      pure deviceId) (fun _ db' _ => Told D db') D [] := by
  refine Ends.bind (Ends.sql (Sql.Ends.bind (ends_user fun u _ _ => ?_)))
  split
  · exact Sql.Ends.raise
  refine Sql.Ends.bind (ends_maxDevices fun limit => Sql.Ends.bind (Sql.Ends.query ?_))
  split
  · exact Sql.Ends.raise
  refine Sql.Ends.bind (ends_attachDevice fun d db₁ p _ huser _ husers hdevices hevents => ?_)
  refine Sql.Ends.bind (ends_logEvent fun ts hc => Sql.Ends.pure (Ends.bind ?_))
  have htold := Told.entry hc hevents fun hD A hA => by
    rw [tell_deviceAdded]
    refine hA.devices husers (fun j hj => ?_) (fun _ => rfl) fun a ha => ?_
    · rw [hdevices, List.filter_append, List.filter_cons_of_neg (by simpa [huser] using Ne.symm hj),
        List.filter_nil, List.append_nil]
    · show a.devices ++ [toString d.id] = _
      rw [ha, hdevices, List.filter_append, List.filter_cons_of_pos (by simpa using huser),
        List.filter_nil, List.map_append, List.map_singleton]
  exact Ends.runIf (fun _ => Ends.unblock htold) fun _ => htold

theorem told_deleteDevice (deviceId : Int) (by_ : String) (D : DB) :
    Ends T (do
      let port ← sql (deleteDeviceRows deviceId by_)
      block [port]) (fun _ db' _ => Told D db') D [] := by
  refine Ends.bind (Ends.sql (Sql.Ends.bind (ends_device fun d hd s _ hid _ => ?_)))
  refine Sql.Ends.bind (ends_releaseSlot fun db₁ _ h₁ _ =>
    Sql.Ends.bind (Sql.Ends.execute fun _ => ?_))
  refine Sql.Ends.bind (ends_logEvent fun ts hc => Sql.Ends.pure (Ends.block ?_))
  refine Told.entry hc h₁.events fun hD A hA => ?_
  rw [tell_deviceDeleted]
  have hrows : (removeDevice deviceId db₁).devices = delete (fun d => decide (d.id = deviceId))
      D.devices := congrArg _ h₁.devices
  refine hA.devices h₁.users (fun j hj => ?_) (fun _ => rfl) fun a ha => ?_
  · rw [hrows, delete, List.filter_filter]
    refine List.filter_congr fun x hx => ?_
    by_cases hxid : x.id = deviceId
    · obtain rfl : x = d := eq_of_key hD.deviceId hx hd (hxid.trans hid.symm)
      simp [Ne.symm hj]
    · simp [hxid]
  · show a.devices.filter _ = _
    rw [ha, hrows, delete, List.filter_filter, List.filter_map, List.filter_filter]
    refine congrArg (List.map _) (List.filter_congr fun x _ => ?_)
    by_cases hxid : x.id = deviceId
    · simp [hxid]
    · have hne : x.id.repr ≠ deviceId.repr := fun he => hxid (JsonText.toString_injective he)
      simp [hxid, hne]

/-- A device keeps its number and its user. -/
theorem Agree.changedDevice {A : Accounts} {db : DB} {deviceId : Int} {f : Device → Device}
    (h : Agree A D) (hf : ∀ d, (f d).id = d.id ∧ (f d).userId = d.userId)
    (husers : db.users = D.users)
    (hdevices : db.devices = update (fun d => decide (d.id = deviceId)) f D.devices) :
    Agree A db := by
  have hkeeps : ∀ j, (db.devices.filter (·.userId = j)).map (fun d => toString d.id) =
      (D.devices.filter (·.userId = j)).map fun d => toString d.id := by
    intro j
    rw [hdevices]
    unfold update
    rw [List.filter_map, List.map_map]
    have huser : ((fun d : Device => decide (d.userId = j)) ∘ fun d => if decide (d.id = deviceId) =
        true then f d else d) = fun d => decide (d.userId = j) := by
      funext d
      simp only [Function.comp_apply]
      split
      · rw [(hf d).2]
      · rfl
    rw [huser]
    refine List.map_congr_left fun d _ => ?_
    simp only [Function.comp_apply]
    split
    · rw [(hf d).1]
    · rfl
  refine ⟨fun u hu => ?_, fun j hj => h.nobody j (husers ▸ hj)⟩
  obtain ⟨a, ha, hm⟩ := h.users u (husers ▸ hu)
  exact ⟨a, ha, hm.enabled, hm.reason, hm.devices.trans (hkeeps u.id).symm, hm.expiry,
    hm.limit, hm.reset⟩

/-- An entry that changes no account. -/
theorem update_silent {A : Accounts} {i : Int} {kind details : String}
    (h : tellUser kind details (A i) = A i) :
    Function.update A i (tellUser kind details (A i)) = A := by
  rw [h, Function.update_eq_self]

theorem told_rotateDevice (deviceId : Int) (D : DB) :
    Ends T (do
      let (old, u, port) ← sql (rotateDeviceRows deviceId)
      block [old]
      Prog.runIf (u.enabled ≠ 0) (unblock [port])) (fun _ db' _ => Told D db') D [] := by
  refine Ends.bind (Ends.sql (Sql.Ends.bind (ends_device fun d hd s hs hid hslot => ?_)))
  refine Sql.Ends.bind (ends_user fun u hu huid =>
    Sql.Ends.bind (ends_takeFreeSlot fun slot db₁ h₁ hmem => ?_))
  refine Sql.Ends.bind (ends_releaseSlot fun db₂ _ h₂ hports =>
    Sql.Ends.bind (Sql.Ends.execute fun _ => ?_))
  refine Sql.Ends.bind (ends_logEvent fun ts hc => Sql.Ends.pure (Ends.bind (Ends.block ?_)))
  have htold := Told.entry hc (h₂.events.trans h₁.events) fun hD A hA => by
    rw [update_silent (by cases A d.userId <;> rfl)]
    exact hA.changedDevice (f := fun d => { d with slotId := slot.id }) (fun _ => ⟨rfl, rfl⟩)
      (h₂.users.trans h₁.users) (congrArg _ (h₂.devices.trans h₁.devices))
  exact Ends.runIf (fun _ => Ends.unblock htold) fun _ => htold

theorem told_renameDevice (deviceId : Int) (name : String) (D : DB) :
    Ends T (sql (renameDeviceRows deviceId name)) (fun _ db' _ => Told D db') D [] := by
  refine Ends.sql (Sql.Ends.bind (ends_device fun d hd s hs hid hslot => ?_))
  refine Sql.Ends.bind (ends_liftExcept fun name' => Sql.Ends.execute fun hc => ?_)
  refine ⟨fun _ => hc, id, [], (List.append_nil _).symm, fun _ A hA => ?_⟩
  exact hA.changedDevice (f := fun d => { d with name := name' }) (fun _ => ⟨rfl, rfl⟩) rfl rfl

/-! ## Access -/

theorem told_disableUser (userId : Int) (reason : Reason) (D : DB) :
    Ends T (do
      match ← sql (disableUserRows userId reason) with
      | none => pure false
      | some ports => do
        block ports
        pure true) (fun _ db' _ => Told D db') D [] := by
  refine Ends.bind (Ends.sql (Sql.Ends.bind (ends_user fun u hu huid => ?_)))
  split
  · exact Sql.Ends.pure (Told.refl D)
  refine Sql.Ends.bind (Sql.Ends.execute fun _ => Sql.Ends.bind (ends_logEvent fun ts hc => ?_))
  refine Sql.Ends.bind (Sql.Ends.query (Sql.Ends.pure (Ends.bind (Ends.block ?_))))
  refine Told.entry hc rfl fun _ A hA => ?_
  have htell : ∀ a, tellUser "user_disabled" ("reason=" ++ Reason.text reason) a =
      a.map fun a => { a with enabled := false, reason := some (Reason.text reason) } := by
    intro a
    simp only [tellUser, Account.tell, field_reason]
    rfl
  rw [htell]
  exact hA.row (f := setDisabled reason) (fun _ => rfl)
    (fun a u hm => ⟨rfl, rfl, hm.devices, hm.expiry, hm.limit, hm.reset⟩) rfl rfl

/-- `enabled = 1, disabled_reason = NULL`, and the entry that says so. -/
theorem Agree.enabled {A : Accounts} {db : DB} {i : Int} {details : String} (h : Agree A db) :
    Agree (Function.update A i (tellUser "user_enabled" details (A i)))
      (updateUser i setEnabled db) := by
  have htell : ∀ a, tellUser "user_enabled" details a = a.map fun a =>
      { a with enabled := true, reason := none } := fun _ => rfl
  rw [htell]
  exact h.row (f := setEnabled) (fun _ => rfl)
    (fun a u hm => ⟨rfl, rfl, hm.devices, hm.expiry, hm.limit, hm.reset⟩) rfl rfl

theorem told_enableUser (userId : Int) (D : DB) :
    Ends T (do
      match ← sql (enableUserRows userId) with
      | none => pure false
      | some ports => do
        unblock ports
        pure true) (fun _ db' _ => Told D db') D [] := by
  refine Ends.bind (Ends.sql (Sql.Ends.bind (ends_user fun u hu huid => ?_)))
  split
  · exact Sql.Ends.pure (Told.refl D)
  refine Sql.Ends.bind (Sql.Ends.execute fun _ => Sql.Ends.bind (ends_logEvent fun ts hc => ?_))
  refine Sql.Ends.bind (Sql.Ends.query (Sql.Ends.pure (Ends.bind (Ends.unblock ?_))))
  exact Told.entry hc rfl fun _ A hA => hA.enabled

theorem told_maybeReenable (userId : Int) (reason : Reason) (D : DB) (calls : List FwCall) :
    Ends T (maybeReenable userId reason) (fun _ db' _ => Told D db') D calls := by
  refine Ends.bind (Ends.sql (Sql.Ends.bind (ends_user fun u hu huid => ?_)))
  split
  · exact Sql.Ends.pure (Told.refl D)
  refine Sql.Ends.bind (Sql.Ends.now fun t _ => ?_)
  split
  · exact Sql.Ends.pure (Told.refl D)
  refine Sql.Ends.bind (Sql.Ends.execute fun _ => Sql.Ends.bind (ends_logEvent fun ts hc => ?_))
  refine Sql.Ends.bind (Sql.Ends.query (Sql.Ends.pure (Ends.unblock ?_)))
  exact Told.entry hc rfl fun _ A hA => hA.enabled

/-- A setter, and then perhaps `_maybe_reenable`. -/
theorem told_setter {m : Sql Unit} (hm : m.Ends T (fun _ db' => Told D db') D) (userId : Int)
    (reason : Reason) (enableNow : Bool) :
    Ends T (do
      sql m
      Prog.runIf enableNow (maybeReenable userId reason)) (fun _ db' _ => Told D db') D [] := by
  refine Ends.bind (Ends.sql (hm.mono fun _ db₁ h₁ => Ends.runIf (fun _ => ?_) fun _ => h₁))
  exact (told_maybeReenable userId reason db₁ []).mono fun _ db' _ h => h₁.trans h

theorem told_setExpiry (userId : Int) (expiresAt : Option Int) (enableNow : Bool) (D : DB) :
    Ends T (do
      sql (setExpiryRows userId expiresAt)
      Prog.runIf enableNow (maybeReenable userId .expired)) (fun _ db' _ => Told D db') D [] := by
  refine told_setter (Sql.Ends.bind (ends_user fun u _ _ =>
    Sql.Ends.bind (Sql.Ends.execute fun _ => ?_))) userId .expired enableNow
  refine ends_logEvent fun ts hc => Told.entry hc rfl fun _ A hA => ?_
  have htell : ∀ a, tellUser "user_expiry_set" ("expires_at=" ++ orText expiresAt "never") a =
      a.map fun a => { a with expiry := some (orText expiresAt "never") } := by
    intro a
    simp only [tellUser, Account.tell, field_expiry]
    rfl
  rw [htell]
  exact hA.row (f := withExpiry expiresAt) (fun _ => rfl)
    (fun a u hm => ⟨hm.enabled, hm.reason, hm.devices, fun t ht => (Option.some.inj ht).symm,
      hm.limit, hm.reset⟩) rfl rfl

theorem told_extend (userId days : Int) (enableNow : Bool) (D : DB) :
    Ends T (do
      let expiresAt ← sql (extendRows userId days)
      setExpiry userId (some expiresAt) enableNow
      pure expiresAt) (fun _ db' _ => Told D db') D [] := by
  refine Ends.bind (Ends.sql
    (Sql.Ends.bind (ends_user fun u _ _ => Sql.Ends.bind (Sql.Ends.now fun t _ => ?_))))
  exact Sql.Ends.pure (Ends.bind (Ends.change (told_setExpiry userId _ enableNow D)))

theorem told_setTrafficLimit (userId : Int) (limit : Option Int) {text : String} {reset : Reset}
    (hreset : resetOf text = some reset) (enableNow : Bool) (D : DB) :
    Ends T (do
      sql (setTrafficLimitRows userId limit reset text)
      Prog.runIf enableNow (maybeReenable userId .trafficLimit))
        (fun _ db' _ => Told D db') D [] := by
  refine told_setter (Sql.Ends.bind (ends_user fun u _ _ =>
    Sql.Ends.bind (Sql.Ends.execute fun _ => ?_))) userId .trafficLimit enableNow
  refine ends_logEvent fun ts hc => Told.entry hc rfl fun _ A hA => ?_
  have htell : ∀ a, tellUser "user_limit_set" ("limit=" ++ orText limit "none" ++ " reset=" ++ text)
      a = a.map fun a => { a with limit := some (orText limit "none"), reset := some text } := by
    intro a
    simp only [tellUser, Account.tell, field_limit limit hreset]
    rfl
  rw [htell]
  refine hA.row (f := withLimit limit reset) (fun _ => rfl) (fun a u hm => ?_) rfl rfl
  refine ⟨hm.enabled, hm.reason, hm.devices, hm.expiry, fun t ht => (Option.some.inj ht).symm,
    fun t ht => ?_⟩
  obtain rfl := Option.some.inj ht
  exact hreset

/-! ## Profile, and the end of a user -/

/-- What `update_profile` writes is in no account. -/
structure Described (D db : DB) : Prop where
  users : db.users.map (fun u => (u.standing, u.trafficReset)) = D.users.map fun u =>
    (u.standing, u.trafficReset)
  devices : db.devices = D.devices
  events : db.events = D.events

theorem Described.agree {A : Accounts} {db : DB} (h : Described D db) (hA : Agree A D) :
    Agree A db where
  users u hu := by
    have hmem : (u.standing, u.trafficReset) ∈ D.users.map fun u => (u.standing, u.trafficReset) :=
      h.users ▸ List.mem_map_of_mem hu
    obtain ⟨u₀, hu₀, he⟩ := List.mem_map.1 hmem
    obtain ⟨hstanding, hreset⟩ := Prod.mk.inj he
    have hid : u₀.id = u.id := congrArg Standing.id hstanding
    obtain ⟨a, ha, hm⟩ := hA.users u₀ hu₀
    exact ⟨a, hid ▸ ha, hm.congr hstanding.symm hreset.symm (by rw [h.devices])⟩
  nobody j hj := by
    refine hA.nobody j fun hmem => hj ?_
    have hids : db.users.map (·.id) = D.users.map (·.id) := by
      have := congrArg (List.map fun x => Standing.id x.1) h.users
      rwa [List.map_map, List.map_map] at this
    exact hids ▸ hmem

theorem described_updateField {α : Type} {value : Option α} {userId : Int} {f : α → User → User}
    {db : DB} (hf : ∀ a u, (f a u).standing = u.standing ∧ (f a u).trafficReset = u.trafficReset)
    (h : Described D db) :
    (updateField value userId f).Ends T (fun _ db' => Described D db') db := by
  cases value with
  | none => exact Sql.Ends.pure h
  | some a =>
    refine Sql.Ends.execute fun _ => ⟨?_, h.devices, h.events⟩
    exact (map_update (fun u => (u.standing, u.trafficReset))
      (fun u _ => Prod.ext (hf a u).1 (hf a u).2) db.users).trans h.users

theorem told_updateProfile (userId : Int) (a : ProfileUpdate) (D : DB) :
    Ends T (sql (updateProfileRows userId a)) (fun _ db' _ => Told D db') D [] := by
  have hD : Described D D := ⟨rfl, rfl, rfl⟩
  refine Ends.sql (Sql.Ends.bind (ends_user fun u hu huid =>
    Sql.Ends.bind (ends_cleanField fun name => ?_)))
  refine Sql.Ends.bind ((described_updateField (by intros; exact ⟨rfl, rfl⟩) hD).mono
    fun _ db₁ h₁ => ?_)
  refine Sql.Ends.bind (Sql.Ends.query ?_)
  split
  · exact Sql.Ends.raise
  refine Sql.Ends.bind ((described_updateField (by intros; exact ⟨rfl, rfl⟩) h₁).mono
    fun _ db₂ h₂ => ?_)
  refine Sql.Ends.bind ((described_updateField (by intros; exact ⟨rfl, rfl⟩) h₂).mono
    fun _ db₃ h₃ => ?_)
  refine Sql.Ends.bind ((described_updateField (by intros; exact ⟨rfl, rfl⟩) h₃).mono
    fun _ db₄ h₄ => ?_)
  split
  · exact Sql.Ends.raise
  refine Sql.Ends.bind ((described_updateField (by intros; exact ⟨rfl, rfl⟩) h₄).mono
    fun _ db₅ h₅ => ?_)
  refine ends_logEvent fun ts hc => Told.entry hc h₅.events fun _ A hA => ?_
  rw [update_silent (by cases A userId <;> rfl)]
  exact h₅.agree hA

theorem told_deleteUser (userId : Int) (D : DB) :
    Ends T (do
      let ports ← sql (deleteUserRows userId)
      block ports) (fun _ db' _ => Told D db') D [] := by
  refine Ends.bind (Ends.sql
    (Sql.Ends.bind (ends_user fun u hu huid => Sql.Ends.bind (Sql.Ends.query ?_))))
  refine Sql.Ends.bind (Sql.Ends.query (Sql.Ends.bind ?_))
  refine (Sql.Ends.forM (I := SlotsOnly D) (fun row db h => ends_releaseSlot fun db' _ h' _ => ?_) _
    ⟨rfl, rfl, rfl⟩).mono fun _ db₁ h₁ => ?_
  · exact ⟨h'.users.trans h.users, h'.devices.trans h.devices, h'.events.trans h.events⟩
  refine Sql.Ends.bind (Sql.Ends.execute fun _ => Sql.Ends.bind (Sql.Ends.execute fun _ => ?_))
  refine Sql.Ends.bind (ends_logEvent fun ts hc => Sql.Ends.pure (Ends.block ?_))
  refine Told.entry hc h₁.events fun _ A hA => ?_
  exact hA.deleted (congrArg _ h₁.users) (congrArg _ h₁.devices)

end Operations

/-! ## Maintenance -/

/-- No clock is looked at here. -/
abbrev Ever : Int → Prop := fun _ => True

/-- Whatever the statements do, they tell it. -/
def Tells {α : Type} (m : Sql α) : Prop := ∀ db, m.Ends Ever (fun _ db' => Told db db') db

section Statements
variable {α β : Type}

theorem Tells.pure (a : α) : Tells (Pure.pure a : Sql α) := fun db => Sql.Ends.pure (Told.refl db)

theorem Tells.query (f : DB → α) : Tells (Sql.query f) := fun db => Sql.Ends.query (Told.refl db)

theorem Tells.raise (e : Err) : Tells (Sql.raise e : Sql α) := fun _ => Sql.Ends.raise

theorem Tells.now : Tells Sql.now := fun db => Sql.Ends.now fun _ _ => Told.refl db

theorem Tells.execute {f : DB → DB} (h : ∀ db, SlotsOnly db (f db)) : Tells (Sql.execute f) :=
  fun db => Sql.Ends.execute fun hc => .quiet (fun _ => hc) (h db).events (h db).users
    (h db).devices

theorem Tells.bind {m : Sql α} {f : α → Sql β} (hm : Tells m) (hf : ∀ a, Tells (f a)) :
    Tells (m >>= f) := fun db =>
  Sql.Ends.bind ((hm db).mono fun a db₁ h => (hf a db₁).mono fun _ _ h' => h.trans h')

theorem Tells.forM {ι : Type} {f : ι → Sql PUnit} (hf : ∀ x, Tells (f x)) :
    ∀ xs : List ι, Tells (xs.forM f)
  | [] => Tells.pure _
  | x :: xs => (hf x).bind fun _ => Tells.forM hf xs

theorem Tells.foldlM {ι : Type} {f : β → ι → Sql β} (hf : ∀ b x, Tells (f b x)) :
    ∀ (xs : List ι) (b : β), Tells (xs.foldlM f b)
  | [], b => Tells.pure b
  | x :: xs, b => by
    rw [List.foldlM_cons]
    exact (hf b x).bind fun b' => Tells.foldlM hf xs b'

theorem Tells.newSecret : Tells newSecret := by
  intro db inp v db' inp' _ h
  rw [newSecret_db h]
  exact ⟨Told.refl db, fun _ _ => trivial⟩

theorem slotsOnly_slots (db : DB) (slots : List Slot) : SlotsOnly db { db with slots := slots } :=
  ⟨rfl, rfl, rfl⟩

theorem slotsOnly_shards (db : DB) (shards : List Shard) :
    SlotsOnly db { db with shards := shards } := ⟨rfl, rfl, rfl⟩

theorem tells_abortStaged : Tells abortStaged :=
  .bind (.execute fun _ => slotsOnly_slots _ _) fun _ =>
    .bind (.execute fun _ => slotsOnly_slots _ _) fun _ =>
    .execute fun _ => slotsOnly_shards _ _

theorem tells_stageDirty : Tells stageDirty := by
  refine .bind (.query _) fun rows => .foldlM (fun shards row => .bind ?_ fun _ => .pure _) _ _
  unfold stageSecret
  split
  · exact .bind .newSecret fun _ => .execute fun _ => slotsOnly_slots _ _
  · exact .pure _

theorem tells_createShards (count : Int) : Tells (createShards count) := by
  unfold createShards
  split
  · exact .pure _
  refine .bind (.query _) fun first => ?_
  split
  · exact .raise _
  refine .bind .now fun timestamp =>
    .bind (.forM (fun k => .bind (.execute fun _ => slotsOnly_shards _ _) fun _ => ?_) _) fun _ =>
    .pure _
  exact .forM (fun idx => .bind .newSecret fun _ => .execute fun _ => slotsOnly_slots _ _) _

theorem tells_stageRows (growShards : Option Int) : Tells (stageRows growShards) := by
  refine .bind tells_abortStaged fun _ => .bind tells_stageDirty fun restart =>
    .bind ?_ fun grow => ?_
  · cases growShards with
    | some n => exact .pure n
    | none => exact .query _
  · exact .bind (tells_createShards grow) fun new => .pure _

theorem tells_commitStaged : Tells commitStaged :=
  .bind (.query _) fun rows =>
    .bind (.forM (fun _ => .execute fun _ => slotsOnly_slots _ _) rows) fun _ =>
    .execute fun _ => slotsOnly_shards _ _

/-- An entry about nobody. -/
theorem tells_pool (kind details : String) : Tells (logEvent kind none details) := fun _ =>
  ends_logEvent fun _ hc => ⟨fun _ => hc, Ordered.addEvent, [_], rfl, fun _ _ hA => hA.same rfl rfl⟩

end Statements

section Fine
variable {ok : Allow Action Choice State}

theorem aside_outer {β : Type} (a : Action β) (h : a.outer) : a.aside := by
  cases a <;> trivial

theorem fine_call {β : Type} {a : Action β} (ha : a.aside) : Fine ok Told (Prog.call a : P β) :=
  Fine.only (Prog.Only.call ha)

theorem fine_tells {α : Type} {m : Sql α} (h : Tells m) : Fine ok Told (transaction (sql m)) :=
  Fine.transaction (Q := fun D _ D' _ => Told D D') (fun _ _ _ _ _ _ _ => trivial)
    (fun D => Ends.sql (h D)) (Unwinds.transaction_iff.2 (Unwinds.sql m)) fun _ _ _ _ h => h

theorem fine_poolSync : Fine ok Told poolSync := Fine.around aside_sync Told.refl

theorem fine_applySteps (a : ApplyArgs) (targets : List (Path × Content)) :
    Fine ok Told (applySteps a targets) := by
  refine Fine.bind (Fine.forM (fun _ => (fine_call (by trivial))) _) fun _ =>
    Fine.bind (Fine.runIf ?_) fun _ => ?_
  · exact Fine.bind fine_poolSync fun _ => Fine.forM (fun _ => (fine_call (by trivial))) _
  refine Fine.bind (Fine.forM (fun _ => (fine_call (by trivial))) _) fun _ => ?_
  refine Fine.bind (fine_call (by trivial)) fun _ =>
    Fine.bind (fine_call (by trivial)) fun healthy => ?_
  exact Fine.runIf (Fine.raise _)

theorem fine_rollBack (a : ApplyArgs) (previous : List (Path × Option Content)) (error : Err) :
    Fine ok Told (rollBack a previous error) := by
  refine Fine.bind (Fine.bestEffort (Fine.only ((outer_restore previous).mono aside_outer)))
    fun _ => ?_
  refine Fine.bind (Fine.forM (fun shard => Fine.bestEffort ?_) _) fun _ => ?_
  · exact Fine.bind (fine_call (by trivial)) fun _ => (fine_call (by trivial))
  refine Fine.bind (fine_tells tells_abortStaged) fun _ =>
    Fine.bind (Fine.bestEffort ?_) fun _ => ?_
  · exact Fine.only ((outer_restarts _).mono aside_outer)
  refine Fine.bind (Fine.runIf (Fine.bestEffort fine_poolSync)) fun _ => ?_
  split
  · exact Fine.raise _
  · exact Fine.raise _

theorem fine_apply (cfg : Config) (sizing : Sizing) (restartShards newShards : List Int) :
    Fine ok Told (apply cfg sizing restartShards newShards) := by
  refine Fine.bind (Fine.only ((outer_renderAll _).mono aside_outer)) fun rendered => ?_
  refine Fine.bind (Fine.only ((outer_checkCandidates rendered).mono aside_outer)) fun x => ?_
  dsimp only
  split
  · exact Fine.bind (fine_tells tells_abortStaged) fun _ => Fine.raise _
  refine Fine.bind (Fine.only ((outer_readFiles _).mono aside_outer)) fun previous =>
    Fine.bind ?_ fun _ => ?_
  · exact Fine.tryCatch (fine_applySteps _ _) fun e => fine_rollBack _ previous e
  · exact fine_tells (tells_commitStaged.bind fun _ => tells_pool _ _)

theorem fine_maintain (cfg : Config) (sizing : Sizing) (growShards : Option Int) :
    Fine ok Told (maintain cfg sizing growShards) := by
  refine Fine.bind (fine_call (by trivial)) fun _ => Fine.tryFinally ?_ (fine_call (by trivial))
  refine Fine.bind (fine_tells (tells_stageRows growShards)) fun x => ?_
  dsimp only
  split
  · exact Fine.ret _
  · exact Fine.bind (fine_call (by trivial)) fun _ =>
      Fine.bind (fine_apply cfg sizing _ _) fun _ => Fine.ret _

/-- Every operation tells what it commits. -/
theorem fine_program (op : Op) : Fine ok Told op.program := by
  have hT : Clocked Ever ok := fun _ _ _ _ _ _ _ => trivial
  have hdrop : ∀ {α : Type} {p : P α}, Fine ok Told p → Fine ok Told (p.bind fun _ => .ret ()) :=
    fun h => h.bind fun _ => Fine.ret ()
  have hchange : ∀ {α : Type} {body : P α}, (∀ D, Ends Ever body (fun _ db' _ => Told D db') D []) →
      Unwinds (WebProxyPanel.change body) → Fine ok Told (WebProxyPanel.change body) :=
        fun hbody hunwinds =>
    Fine.change (Q := fun D _ D' _ => Told D D') hT hbody hunwinds fun _ _ _ _ h => h
  have htransaction : ∀ {α : Type} {body : P α},
      (∀ D, Ends Ever body (fun _ db' _ => Told D db') D []) →
      Unwinds (transaction body) → Fine ok Told (transaction body) := fun hbody hunwinds =>
    Fine.transaction (Q := fun D _ D' _ => Told D D') hT hbody hunwinds fun _ _ _ _ h => h
  cases op with
  | createUser a =>
    refine hdrop ?_
    have hunwinds := unwinds_createUser a
    unfold Users.createUser at hunwinds ⊢
    cases hcheck : a.check with
    | error e => exact Fine.raise e
    | ok x =>
      rw [hcheck] at hunwinds
      show Fine ok Told ((Prog.call .now).bind fun timestamp => _)
      refine Fine.bind (fine_call (by trivial)) fun timestamp => ?_
      exact hchange (told_createUser (createdByOf_of_check hcheck) _ _ timestamp)
        (hunwinds.2.2 timestamp trivial)
  | addDevice userId createdBy name =>
    refine hdrop ?_
    have hunwinds := unwinds_addDevice userId createdBy name
    unfold Users.addDevice at hunwinds ⊢
    split at hunwinds
    · exact Fine.raise _
    · exact hchange (told_addDevice userId _ createdBy name) hunwinds
  | deleteDevice deviceId by_ =>
    exact hchange (told_deleteDevice deviceId by_) (unwinds_deleteDevice deviceId by_)
  | rotateDevice deviceId =>
    exact hchange (told_rotateDevice deviceId) (unwinds_rotateDevice deviceId)
  | renameDevice deviceId name =>
    exact htransaction (told_renameDevice deviceId name) (unwinds_renameDevice deviceId name)
  | disableUser userId reason =>
    refine hdrop ?_
    have hunwinds := unwinds_disableUser userId reason
    unfold Users.disableUser at hunwinds ⊢
    cases hreason : reasonOf reason with
    | none => exact Fine.raise _
    | some r =>
      rw [hreason] at hunwinds
      exact hchange (told_disableUser userId r) hunwinds
  | enableUser userId => exact hdrop (hchange (told_enableUser userId) (unwinds_enableUser userId))
  | setExpiry userId expiresAt enableNow =>
    exact hchange (told_setExpiry userId expiresAt enableNow)
      (unwinds_setExpiry userId expiresAt enableNow)
  | extend userId days enableNow =>
    refine hdrop ?_
    have hunwinds := unwinds_extend userId days enableNow
    unfold Users.extend at hunwinds ⊢
    by_cases hdays : days ≤ 0
    · rw [if_pos hdays]
      exact Fine.raise _
    · rw [if_neg hdays] at hunwinds ⊢
      exact hchange (told_extend userId days enableNow) hunwinds
  | setTrafficLimit userId limitBytes reset enableNow =>
    have hunwinds := unwinds_setTrafficLimit userId limitBytes reset enableNow
    show Fine ok Told (Users.setTrafficLimit userId limitBytes reset enableNow)
    unfold Users.setTrafficLimit at hunwinds ⊢
    cases hreset : resetOf reset with
    | none => exact Fine.raise _
    | some r =>
      rw [hreset] at hunwinds
      dsimp only at hunwinds ⊢
      by_cases hlimit : limitBytes.any (· ≤ 0) = true
      · rw [if_pos hlimit]
        exact Fine.raise _
      · rw [if_neg hlimit] at hunwinds ⊢
        exact hchange (told_setTrafficLimit userId limitBytes hreset enableNow) hunwinds
  | updateProfile userId a =>
    exact htransaction (told_updateProfile userId a) (unwinds_updateProfile userId a)
  | deleteUser userId => exact hchange (told_deleteUser userId) (unwinds_deleteUser userId)
  | maintain cfg sizing growShards => exact hdrop (fine_maintain cfg sizing growShards)
  | sync => exact Fine.only aside_sync

end Fine

/-! ## All processes together -/

/-- The journal, read from its first entry to its last, gives the tables. -/
structure Chronicle (db : DB) : Prop where
  consistent : db.Consistent
  ordered : Ordered db
  agree : Agree (replay (journal db)) db

theorem journal_of_ordered {db : DB} (h : Ordered db) : journal db = db.events := by
  unfold journal orderBy
  refine List.Pairwise.insertionSort_eq ?_
  rw [Ordered, List.pairwise_map] at h
  exact h.imp le_of_lt

theorem Chronicle.told {D D' : DB} (h : Chronicle D) (ht : Told D D') :
    Chronicle D' ∧ D.events <+: D'.events := by
  obtain ⟨es, he, hA⟩ := ht.entries
  have hagree := hA h.consistent _ h.agree
  refine ⟨⟨ht.consistent h.consistent, ht.ordered h.ordered, ?_⟩, he ▸ List.prefix_append _ _⟩
  rw [journal_of_ordered (ht.ordered h.ordered), he, replay, List.foldl_append]
  rwa [journal_of_ordered h.ordered] at hagree

section Together
variable {ι : Type} [DecidableEq ι] {ok : Allow Action Choice State} {mayStop : Prop}

/-- No operation is running and no transaction open. -/
structure AllIdle (c : Configuration ι Op Action Err World Own) : Prop where
  quiet : System.Quiet c
  writer : c.shared.writer = none
  inTx : ∀ i, (c.own i).inTx = false

/-- Whatever any number of processes do, in any order and with any failures and stops, the journal
only grows, and it tells what the tables hold. -/
theorem journal_tells {c c' : Configuration ι Op Action Err World Own} (hc : AllIdle c)
    (h : Chronicle c.shared.db) (hr : (txSystem Op.program).Reachable ok mayStop c c') :
    Chronicle c'.shared.db ∧ c.shared.db.events <+: c'.shared.db.events := by
  have horder : InOrder ok Told Op.program c := by
    refine ⟨⟨fun i j hi => by simp [hc.inTx i] at hi, by simp [hc.writer, hc.inTx]⟩, fun i => ?_⟩
    rw [hc.quiet i]
    exact hc.inTx i
  have hrun : InOrder ok Told Op.program c' ∧ Chronicle c'.shared.db ∧
      c.shared.db.events <+: c'.shared.db.events := by
    induction hr with
    | refl => exact ⟨horder, h, List.prefix_refl _⟩
    | tail _ hs ih =>
      obtain ⟨i, hs⟩ := hs
      obtain ⟨ho, hch, hprefix⟩ := ih
      refine ⟨ho.step (composes_txSystem fine_program) hs, ?_⟩
      rcases committed_step ho hs with hdb | htold
      · rw [hdb]
        exact ⟨hch, hprefix⟩
      · exact ⟨(hch.told htold).1, hprefix.trans (hch.told htold).2⟩
  exact hrun.2

end Together

theorem chronicle_empty : Chronicle DB.empty where
  consistent := inv_empty.consistent
  ordered := List.Pairwise.nil
  agree := ⟨by simp [DB.empty], fun _ _ => rfl⟩

/-- The installation with its first user. -/
theorem journal_tells_installed :
    Chronicle Procs.installed.shared.db ∧ [] <+: Procs.installed.shared.db.events := by
  have hidle : AllIdle Procs.initial := ⟨fun _ => rfl, rfl, fun _ => rfl⟩
  have hreach : (txSystem Op.program).Reachable (fun c {_} a s => anything c a s = true) False
      Procs.initial Procs.installed :=
    reached_installed
  exact journal_tells hidle chronicle_empty hreach

end Journal
end WebProxyPanel
