import WebProxyPanel.Effect
import WebProxyPanel.TxLock
/-!
# The device limit

Only `add_device` compares the number of devices with `max_devices`. Count and limit are read in the
same write transaction that adds the device, so what each transaction commits justifies the count of
every user by what it began on (`Counted`), and `committed_step` carries that over to any number of
processes.

* `limitOf` — `max_devices`, as a value; the setting and the column are those of one database.
* `Counted` — the promise of a transaction at its COMMIT.
* `LimitsKept` — what is asked of those who change limits; `Within` — what follows.
* `Request`, `AtRest`, `LimitedStep` — the processes that ask, how they begin, and a step that keeps
  the limits.
-/

namespace WebProxyPanel
open Table Effects Users

/-! ## Counts and limits -/

/-- `max_devices(conn, user)` -/
def limitOf (db : DB) (u : User) : Option Int :=
  match maxDevices u db ⟨[], []⟩ with
  | .ok n _ _ => some n
  | _ => none

/-- The primary key of users, and the reference of devices to it. -/
structure Keyed (D : DB) : Prop where
  userId : (D.users.map (·.id)).Nodup
  deviceUser : ∀ d ∈ D.devices, d.userId ∈ D.users.map (·.id)

/-- Why a user of `D'` may have that many devices. -/
inductive Justified (D D' : DB) (u : User) : Prop
  | first : deviceCount u.id D' ≤ 1 → Justified D D' u
  | notMore : u.id ∈ D.users.map (·.id) → deviceCount u.id D' ≤ deviceCount u.id D →
      Justified D D' u
  | checked {n : Int} : limitOf D' u = some n → deviceCount u.id D' ≤ n → Justified D D' u

/-- What a transaction that began on `D` commits. -/
def Counted (D D' : DB) : Prop := Keyed D → Keyed D' ∧ ∀ u ∈ D'.users, Justified D D' u

/-- Every limit is at least 1, and no limit is lowered below the number of devices. -/
def LimitsKept (D D' : DB) : Prop :=
  ∀ u' ∈ D'.users, ∃ n ∈ limitOf D' u', 1 ≤ n ∧
    ∀ u ∈ D.users, u.id = u'.id → ∀ m ∈ limitOf D u, n < m → deviceCount u.id D ≤ n

instance (D D' : DB) : Decidable (LimitsKept D D') := by
  unfold LimitsKept
  infer_instance

/-- Each user has at most `max_devices(user)` devices. -/
def Within (D : DB) : Prop := ∀ u ∈ D.users, ∃ n ∈ limitOf D u, deviceCount u.id D ≤ n

theorem Within.commit {D D' : DB} (h : Within D) (hjust : ∀ u ∈ D'.users, Justified D D' u)
    (hkept : LimitsKept D D') : Within D' := by
  intro u' hu'
  obtain ⟨n, hn, hone, hlowered⟩ := hkept u' hu'
  refine ⟨n, hn, ?_⟩
  cases hjust u' hu' with
  | first hcount => exact hcount.trans hone
  | notMore hmem hcount =>
    obtain ⟨u, hu, huid⟩ := List.mem_map.1 hmem
    obtain ⟨m, hm, hle⟩ := h u hu
    rw [← huid] at hcount ⊢
    by_cases hnm : n < m
    · exact hcount.trans (hlowered u hu huid m hm hnm)
    · exact hcount.trans (hle.trans (not_lt.1 hnm))
  | checked hlimit hcount =>
    obtain rfl := Option.some.inj (hlimit.symm.trans hn)
    exact hcount

/-! ## What the operations do to both -/

section Counting
variable {D D' : DB}

theorem deviceCount_eq (i : Int) (D : DB) :
    deviceCount i D = ((D.devices.map (·.userId)).count i : Int) := by
  unfold deviceCount
  rw [List.count_eq_countP, List.countP_map, List.countP_eq_length_filter]
  refine congrArg (fun ds : List Device => (ds.length : Int)) (List.filter_congr fun d _ => ?_)
  simp [Bool.beq_eq_decide_eq]

/-- No user and no device more. -/
theorem Counted.of_sublist (husers : (D'.users.map (·.id)).Sublist (D.users.map (·.id)))
    (hdevices : (D'.devices.map (·.userId)).Sublist (D.devices.map (·.userId)))
    (hrefs : Keyed D → ∀ d ∈ D'.devices, d.userId ∈ D'.users.map (·.id)) : Counted D D' := by
  refine fun hD => ⟨⟨hD.userId.sublist husers, hrefs hD⟩, fun u hu =>
    .notMore (husers.subset (List.mem_map_of_mem hu)) ?_⟩
  rw [deviceCount_eq, deviceCount_eq]
  exact_mod_cast hdevices.count_le u.id

/-- The same users, and the same devices of each. -/
theorem Counted.of_eq (husers : D'.users.map (·.id) = D.users.map (·.id))
    (hdevices : D'.devices.map (·.userId) = D.devices.map (·.userId)) : Counted D D' := by
  refine Counted.of_sublist (husers ▸ List.Sublist.refl _) (hdevices ▸ List.Sublist.refl _)
    fun hD d hd => ?_
  have hmem : d.userId ∈ D.devices.map (·.userId) := hdevices ▸ List.mem_map_of_mem hd
  obtain ⟨d₀, hd₀, he⟩ := List.mem_map.1 hmem
  rw [husers, ← he]
  exact hD.deviceUser d₀ hd₀

theorem Counted.setter {T : Int → Prop} {enableNow : Bool} {reason : Reason} {f : User → User}
    {userId : Int} {calls : List FwCall} (h : Setter T enableNow reason f userId D D' calls)
    (hf : ∀ u, (f u).id = u.id) : Counted D D' := by
  cases h with
  | reenabled _ _ _ _ husers hdevices =>
    exact Counted.of_eq (husers ▸ ids_update (f := fun u => setEnabled (f u)) hf _ _)
      (by rw [hdevices])
  | changed _ _ _ husers hdevices =>
    exact Counted.of_eq (husers ▸ ids_update hf _ _) (by rw [hdevices])

/-- A new device: its user has one more, the others as many as before. -/
theorem deviceCount_append (d : Device) (hdevices : D'.devices = D.devices ++ [d]) (i : Int) :
    deviceCount i D' = deviceCount i D + if d.userId = i then 1 else 0 := by
  simp only [deviceCount_eq, hdevices, List.map_append, List.count_append, List.map_cons,
    List.map_nil, List.count_singleton]
  split <;> simp_all

theorem Counted.createUser {u : User} {d : Device} (hid : u.id = nextRowid (D.users.map (·.id)))
    (hd : d.userId = u.id) (husers : D'.users = D.users ++ [u])
    (hdevices : D'.devices = D.devices ++ [d]) : Counted D D' := by
  intro hD
  have hids : D'.users.map (·.id) = D.users.map (·.id) ++ [u.id] := by simp [husers]
  have hnone : deviceCount u.id D = 0 := by
    rw [deviceCount_eq, Int.natCast_eq_zero, List.count_eq_zero]
    intro hmem
    obtain ⟨d₀, hd₀, he⟩ := List.mem_map.1 hmem
    exact nextRowid_notMem _ (hid ▸ he ▸ hD.deviceUser d₀ hd₀)
  refine ⟨⟨?_, ?_⟩, ?_⟩
  · rw [hids, hid]
    exact nodup_append_nextRowid hD.userId
  · intro d₀ hd₀
    rw [hdevices, List.mem_append, List.mem_singleton] at hd₀
    rw [hids, List.mem_append]
    rcases hd₀ with hd₀ | rfl
    · exact .inl (hD.deviceUser d₀ hd₀)
    · exact .inr (by simp [hd])
  · intro u' hu'
    have hcount := deviceCount_append d hdevices u'.id
    rw [husers, List.mem_append, List.mem_singleton] at hu'
    rcases hu' with hu' | rfl
    · have hne : d.userId ≠ u'.id := by
        rw [hd, hid]
        exact fun he => nextRowid_notMem (D.users.map (·.id)) (List.mem_map.2 ⟨u', hu', he.symm⟩)
      rw [if_neg hne] at hcount
      exact .notMore (List.mem_map_of_mem hu') (by omega)
    · rw [if_pos hd, hnone] at hcount
      exact .first (by omega)

theorem Counted.deleteUser {userId : Int}
    (husers : D'.users = delete (fun u => decide (u.id = userId)) D.users)
    (hdevices : D'.devices = delete (fun d => decide (d.userId = userId)) D.devices) :
    Counted D D' := by
  refine Counted.of_sublist (husers ▸ (delete_sublist _ _).map _)
    (hdevices ▸ (delete_sublist _ _).map _) fun hD d hd => ?_
  rw [hdevices, mem_delete] at hd
  obtain ⟨u, hu, hid⟩ := List.mem_map.1 (hD.deviceUser d hd.1)
  have hne : d.userId ≠ userId := by simpa using hd.2
  rw [husers, ← hid]
  refine List.mem_map_of_mem (mem_delete.2 ⟨hu, ?_⟩)
  exact decide_eq_false (hid ▸ hne)

/-- The column, or the number in the setting. -/
theorem limitOf_eq (D : DB) (u : User) : limitOf D u = match u.maxDevices with
    | some n => some n
    | none => ((D.settings.lookup "default_max_devices").getD (.int 1)).toInt.toOption := by
  have hof : ∀ v : Value,
      (match liftExcept v.toInt D ⟨[], []⟩ with | .ok n _ _ => some n | _ => none) =
      v.toInt.toOption := by
    intro v
    cases v.toInt <;> rfl
  unfold limitOf maxDevices
  cases u.maxDevices with
  | some n => rfl
  | none =>
    simp only [getSetting, Sql.bind_run, Sql.query]
    cases D.settings.lookup "default_max_devices" with
    | none => rfl
    | some v => exact hof v

theorem limitOf_congr (hsettings : D'.settings = D.settings) (u : User) :
    limitOf D' u = limitOf D u := by
  rw [limitOf_eq, limitOf_eq, hsettings]

/-- A device is added after the check. -/
structure AddsWithin (userId : Int) (D D' : DB) : Prop where
  limit : ∃ u ∈ D.users, u.id = userId ∧ ∃ n ∈ limitOf D u, deviceCount userId D < n
  settings : D'.settings = D.settings

theorem Counted.addDevice {userId : Int} {d : Device} (h : AddsWithin userId D D')
    (hd : d.userId = userId) (husers : D'.users = D.users)
    (hdevices : D'.devices = D.devices ++ [d]) : Counted D D' := by
  intro hD
  obtain ⟨u, hu, huid, n, hn, hlt⟩ := h.limit
  refine ⟨⟨?_, ?_⟩, ?_⟩
  · rw [husers]
    exact hD.userId
  · intro d₀ hd₀
    rw [hdevices, List.mem_append, List.mem_singleton] at hd₀
    rw [husers]
    rcases hd₀ with hd₀ | rfl
    · exact hD.deviceUser d₀ hd₀
    · exact hd ▸ huid ▸ List.mem_map_of_mem hu
  · intro u' hu'
    rw [husers] at hu'
    have hcount := deviceCount_append d hdevices u'.id
    by_cases he : d.userId = u'.id
    · obtain rfl : u' = u := eq_of_key hD.userId hu' hu ((he.symm.trans hd).trans huid.symm)
      rw [if_pos he] at hcount
      refine .checked ((limitOf_congr h.settings u').trans hn) ?_
      rw [huid] at hcount ⊢
      omega
    · rw [if_neg he] at hcount
      exact .notMore (List.mem_map_of_mem hu') (by omega)

/-- Every operation that returns keeps the promise, if `add_device` has made its check. -/
theorem Effect.counted {T : Int → Prop} {op : Op} {ids : Ids} {calls : List FwCall}
    (h : Effect T D D' op ids calls)
    (hadd : ∀ userId createdBy name, op = .addDevice userId createdBy name → AddsWithin userId D D') :
    Counted D D' := by
  have hsame : D'.users = D.users → D'.devices = D.devices → Counted D D' :=
    fun hu hd => Counted.of_eq (by rw [hu]) (by rw [hd])
  have hset : ∀ {f : User → User} {userId : Int},
      D'.users = update (fun u => decide (u.id = userId)) f D.users →
      D'.devices = D.devices → (∀ u, (f u).id = u.id) → Counted D D' :=
    fun hu hd hf => Counted.of_eq (hu ▸ ids_update hf _ _) (by rw [hd])
  have hchanged : ∀ {f : Device → Device} {deviceId : Int}, D'.users = D.users →
      D'.devices = update (fun d => decide (d.id = deviceId)) f D.devices →
      (∀ d, (f d).userId = d.userId) → Counted D D' :=
    fun hu hd hf => Counted.of_eq (by rw [hu]) (hd ▸ map_update _ (fun d _ => hf d) _)
  cases h with
  | createUser hid _ _ _ hd _ husers hdevices => exact Counted.createUser hid hd husers hdevices
  | addDevice _ _ _ hd _ husers hdevices =>
    exact Counted.addDevice (hadd _ _ _ rfl) hd husers hdevices
  | deleteDevice _ _ husers hdevices =>
    refine Counted.of_sublist (husers ▸ List.Sublist.refl _) (hdevices ▸ (delete_sublist _ _).map _)
      fun hD d hd => ?_
    rw [hdevices, mem_delete] at hd
    exact husers ▸ hD.deviceUser d hd.1
  | rotateDevice _ _ _ _ _ husers hdevices => exact hchanged husers hdevices fun _ => rfl
  | renameDevice husers hdevices => exact hchanged husers hdevices fun _ => rfl
  | disableUser _ _ _ _ husers hdevices => exact hset husers hdevices fun _ => rfl
  | wasDisabled _ _ _ husers hdevices => exact hsame husers hdevices
  | enableUser _ _ _ husers hdevices => exact hset husers hdevices fun _ => rfl
  | wasEnabled _ _ _ husers hdevices => exact hsame husers hdevices
  | setExpiry hs => exact Counted.setter hs fun _ => rfl
  | extend _ _ _ _ hs => exact Counted.setter hs fun _ => rfl
  | setTrafficLimit _ hs => exact Counted.setter hs fun _ => rfl
  | updateProfile husers hdevices =>
    refine Counted.of_eq ?_ (by rw [hdevices])
    have hids := congrArg (List.map Standing.id) husers
    rwa [List.map_map, List.map_map] at hids
  | deleteUser _ _ husers hdevices => exact Counted.deleteUser husers hdevices

end Counting

/-! ## The check of `add_device` -/

section Check
variable {T : Int → Prop} {db D : DB}

theorem maxDevices_eq_ok {u : User} {inp inp' : Inputs} {n : Int} {db' : DB}
    (h : maxDevices u db inp = .ok n db' inp') : limitOf db u = some n ∧ db' = db ∧ inp' = inp := by
  have hof : ∀ v : Value, liftExcept v.toInt db inp = .ok n db' inp' → v.toInt.toOption = some n ∧
      db' = db ∧ inp' = inp := by
    intro v hv
    cases hn : v.toInt with
    | ok m =>
      rw [hn] at hv
      obtain ⟨rfl, rfl, rfl⟩ := Sql.pure_eq_ok.1 hv
      exact ⟨rfl, rfl, rfl⟩
    | error e =>
      rw [hn] at hv
      exact absurd hv Sql.raise_ne_ok
  rw [limitOf_eq]
  unfold maxDevices at h
  cases hu : u.maxDevices with
  | some m =>
    simp only [hu, Sql.pure_eq_ok] at h
    obtain ⟨rfl, rfl, rfl⟩ := h
    exact ⟨rfl, rfl, rfl⟩
  | none =>
    simp only [hu, getSetting, Sql.bind_run, Sql.query] at h
    cases hv : db.settings.lookup "default_max_devices" with
    | none =>
      rw [hv] at h
      exact hof (.int 1) h
    | some v =>
      rw [hv] at h
      exact hof v h

theorem ends_limit {u : User} {Q : Int → DB → Prop} (h : ∀ n ∈ limitOf db u, Q n db) :
    (maxDevices u).Ends T Q db := by
  intro inp n db' inp' ht hm
  obtain ⟨hn, rfl, rfl⟩ := maxDevices_eq_ok hm
  exact ⟨h n hn, ht⟩

/-- A new device is no setting. -/
theorem ends_attachDevice_settings {userId : Int} {name : Option String} {createdBy : DeviceBy}
    {Q : Int × Int → DB → Prop} (h : ∀ x db', db'.settings = db.settings → Q x db') :
    (attachDevice userId name createdBy).Ends T Q db := by
  refine Sql.Ends.bind (Sql.Ends.bind
    (Sql.Ends.query (Sql.Ends.bind (Sql.Ends.orRaise fun row _ => Sql.Ends.bind ?_))))
  refine Sql.Ends.execute fun _ =>
    Sql.Ends.bind (Sql.Ends.query (Sql.Ends.orRaise fun s _ => Sql.Ends.bind (Sql.Ends.query ?_)))
  refine Sql.Ends.bind (ends_deviceNameOf fun deviceName =>
    Sql.Ends.bind (Sql.Ends.now fun ts _ => ?_))
  refine Sql.Ends.bind (Sql.Ends.query
    (Sql.Ends.bind (Sql.Ends.execute fun _ => Sql.Ends.bind (Sql.Ends.execute fun _ => ?_))))
  exact Sql.Ends.pure (h _ _ rfl)

theorem ends_addDevice_within (userId : Int) (createdBy : DeviceBy) (text : String)
    (name : Option String) (D : DB) :
    Ends T (do
      let (u, deviceId, port) ← sql (addDeviceRows userId createdBy text name)
      Prog.runIf (u.enabled ≠ 0) (unblock [port])
      pure deviceId) (fun _ db' _ => AddsWithin userId D db') D [] := by
  refine Ends.bind (Ends.sql (Sql.Ends.bind (ends_user fun u hu huid => ?_)))
  split
  · exact Sql.Ends.raise
  refine Sql.Ends.bind (ends_limit fun limit hlimit => Sql.Ends.bind (Sql.Ends.query ?_))
  split
  · exact Sql.Ends.raise
  rename_i hcount
  refine Sql.Ends.bind (ends_attachDevice_settings fun x db₁ hsettings => ?_)
  refine Sql.Ends.bind (ends_logEvent fun ts _ => Sql.Ends.pure ?_)
  have hwithin : ∀ db', db'.settings = db₁.settings → AddsWithin userId D db' :=
    fun db' h => ⟨⟨u, hu, huid, limit, hlimit, not_le.1 hcount⟩, h.trans hsettings⟩
  exact Ends.bind (Ends.runIf (fun _ => Ends.unblock (hwithin _ rfl)) fun _ => hwithin _ rfl)

end Check

/-! ## Requests -/

/-- What panel and bot ask for: the functions of users.py, and `set_setting("default_max_devices",
value)`. -/
inductive Request where
  | user (op : Op) (isUser : op.isUser = true)
  | setDefault (value : Value)

namespace Request

def program : Request → P Unit
  | user op _ => op.program
  | setDefault value => transaction (sql (setSetting "default_max_devices" value))

end Request

section Fine
variable {ok : Allow Action Choice State} {T : Int → Prop}

theorem fine_drop {α : Type} {p : P α} (h : Fine ok Counted p) :
    Fine ok Counted (p.bind fun _ => .ret ()) :=
  h.bind fun _ => Fine.ret ()

/-- An operation in `_change`, `add_device` aside. -/
theorem fine_change {α : Type} (hT : Clocked T ok) {op : Op} {g : α → Ids} {body : P α}
    (hop : ∀ userId createdBy name, op ≠ .addDevice userId createdBy name)
    (hbody : ∀ D, Ends T body (fun a => Leaves T op D (g a)) D [])
    (hunwinds : Unwinds (change body)) : Fine ok Counted (change body) := by
  refine Fine.change hT hbody hunwinds fun D a D' calls h =>
    h.1.counted fun userId createdBy name he => ?_
  exact absurd he (hop userId createdBy name)

/-- The same for an operation that makes no firewall call. -/
theorem fine_transaction {α : Type} (hT : Clocked T ok) {op : Op} {g : α → Ids} {body : P α}
    (hop : ∀ userId createdBy name, op ≠ .addDevice userId createdBy name)
    (hbody : ∀ D, Ends T body (fun a => Leaves T op D (g a)) D [])
    (hunwinds : Unwinds (transaction body)) : Fine ok Counted (transaction body) := by
  refine Fine.transaction hT hbody hunwinds fun D a D' calls h =>
    h.1.counted fun userId createdBy name he => ?_
  exact absurd he (hop userId createdBy name)

theorem fine_addDevice (hT : Clocked T ok) (userId : Int) (createdBy : String)
    (name : Option String) : Fine ok Counted (Users.addDevice userId createdBy name) := by
  have hunwinds := unwinds_addDevice userId createdBy name
  unfold Users.addDevice at hunwinds ⊢
  split at hunwinds
  · exact Fine.raise _
  · rename_i by_ _
    have hbody := fun D => (ends_addDevice (T := T) userId by_ createdBy name D).and
        (ends_addDevice_within userId by_ createdBy name D)
    refine Fine.change hT hbody hunwinds ?_
    rintro D a D' calls ⟨hleaves, hwithin⟩
    refine hleaves.1.counted ?_
    rintro _ _ _ he
    obtain ⟨rfl, rfl, rfl⟩ := Op.addDevice.inj he
    exact hwithin

theorem fine_user (hT : Clocked T ok) (op : Op) (hu : op.isUser = true) :
    Fine ok Counted op.program := by
  cases op with
  | createUser a =>
    refine fine_drop ?_
    have hunwinds := unwinds_createUser a
    unfold Users.createUser at hunwinds ⊢
    cases hcheck : a.check with
    | error e => exact Fine.raise e
    | ok x =>
      rw [hcheck] at hunwinds
      show Fine ok Counted ((Prog.call .now).bind fun timestamp => _)
      refine Fine.bind (Fine.only (Prog.Only.call trivial)) fun timestamp => ?_
      exact fine_change hT (by simp) (ends_createUser a _ _ _ timestamp)
        (hunwinds.2.2 timestamp trivial)
  | addDevice userId createdBy name => exact fine_drop (fine_addDevice hT userId createdBy name)
  | deleteDevice deviceId by_ =>
    exact fine_change hT (by simp) (ends_deleteDevice deviceId by_)
      (unwinds_deleteDevice deviceId by_)
  | rotateDevice deviceId =>
    exact fine_change hT (by simp) (ends_rotateDevice deviceId) (unwinds_rotateDevice deviceId)
  | renameDevice deviceId name =>
    exact fine_transaction hT (by simp) (ends_renameDevice deviceId name)
      (unwinds_renameDevice deviceId name)
  | disableUser userId reason =>
    refine fine_drop ?_
    have hunwinds := unwinds_disableUser userId reason
    unfold Users.disableUser at hunwinds ⊢
    cases hreason : reasonOf reason with
    | none => exact Fine.raise _
    | some r =>
      rw [hreason] at hunwinds
      exact fine_change hT (by simp) (ends_disableUser userId hreason) hunwinds
  | enableUser userId =>
    exact fine_drop (fine_change hT (by simp) (ends_enableUser userId) (unwinds_enableUser userId))
  | setExpiry userId expiresAt enableNow =>
    have hbody : ∀ D, Ends T (do
        sql (setExpiryRows userId expiresAt)
        Prog.runIf enableNow (maybeReenable userId .expired))
        (fun _ => Leaves T (.setExpiry userId expiresAt enableNow) D .none) D [] := fun D =>
      (ends_setExpiry userId expiresAt enableNow D).mono fun _ _ _ h => ⟨.setExpiry h.1, h.2⟩
    exact fine_change hT (by simp) hbody (unwinds_setExpiry userId expiresAt enableNow)
  | extend userId days enableNow =>
    refine fine_drop ?_
    have hunwinds := unwinds_extend userId days enableNow
    unfold Users.extend at hunwinds ⊢
    by_cases hdays : days ≤ 0
    · rw [if_pos hdays]
      exact Fine.raise _
    · rw [if_neg hdays] at hunwinds ⊢
      exact fine_change hT (by simp) (ends_extend (not_le.1 hdays) enableNow) hunwinds
  | setTrafficLimit userId limitBytes reset enableNow =>
    have hunwinds := unwinds_setTrafficLimit userId limitBytes reset enableNow
    show Fine ok Counted (Users.setTrafficLimit userId limitBytes reset enableNow)
    unfold Users.setTrafficLimit at hunwinds ⊢
    cases hreset : resetOf reset with
    | none => exact Fine.raise _
    | some r =>
      rw [hreset] at hunwinds
      dsimp only at hunwinds ⊢
      by_cases hlimit : limitBytes.any (· ≤ 0) = true
      · rw [if_pos hlimit]
        exact Fine.raise _
      · rw [if_neg hlimit] at hunwinds ⊢
        exact fine_change hT (by simp) (ends_setTrafficLimit hreset enableNow) hunwinds
  | updateProfile userId a =>
    exact fine_transaction hT (by simp) (ends_updateProfile userId a)
      (unwinds_updateProfile userId a)
  | deleteUser userId =>
    exact fine_change hT (by simp) (ends_deleteUser userId) (unwinds_deleteUser userId)
  | maintain cfg sizing growShards => simp [Op.isUser] at hu
  | sync => simp [Op.isUser] at hu

theorem fine_request (hT : Clocked T ok) (r : Request) : Fine ok Counted r.program := by
  cases r with
  | user op hu => exact fine_user hT op hu
  | setDefault value =>
    have hbody : ∀ D, Ends T (sql (setSetting "default_max_devices" value))
        (fun _ db' _ => db'.users = D.users ∧ db'.devices = D.devices) D [] := by
      intro D
      refine Ends.sql ?_
      unfold setSetting
      split
      · exact Sql.Ends.raise
      · exact Sql.Ends.execute fun _ => ⟨rfl, rfl⟩
    refine Fine.transaction hT hbody (Unwinds.transaction_iff.2 (Unwinds.sql _)) ?_
    rintro D _ D' calls ⟨husers, hdevices⟩
    exact Counted.of_eq (by rw [husers]) (by rw [hdevices])

end Fine

/-! ## All processes together -/

section Together
variable {ι : Type} [DecidableEq ι] {ok : Allow Action Choice State} {T : Int → Prop}
  {mayStop : Prop}

/-- Processes that serve requests. -/
abbrev Servers (ι : Type) := Configuration ι Request Action Err World Own

/-- No request is running and no transaction open. -/
structure AtRest (c : Servers ι) : Prop where
  quiet : System.Quiet c
  writer : c.shared.writer = none
  inTx : ∀ i, (c.own i).inTx = false

/-- A step of one process, after which the limits are as they must be. -/
def LimitedStep (ok : Allow Action Choice State) (mayStop : Prop) (c c' : Servers ι) : Prop :=
  (∃ i, (txSystem Request.program).Step ok mayStop i c c') ∧ LimitsKept c.shared.db c'.shared.db

omit [DecidableEq ι] in
theorem AtRest.inOrder {c : Servers ι} (h : AtRest c) : InOrder ok Counted Request.program c where
  global := ⟨fun i j hi => by simp [h.inTx i] at hi, by simp [h.writer, h.inTx]⟩
  sound i := by
    rw [h.quiet i]
    exact h.inTx i

theorem within_reached (hT : Clocked T ok) {c c' : Servers ι} (hc : AtRest c)
    (hkeyed : Keyed c.shared.db) (h : Within c.shared.db)
    (hr : Relation.ReflTransGen (LimitedStep ok mayStop) c c') :
    InOrder ok Counted Request.program c' ∧ Keyed c'.shared.db ∧ Within c'.shared.db := by
  induction hr with
  | refl => exact ⟨hc.inOrder, hkeyed, h⟩
  | tail _ hs ih =>
    obtain ⟨⟨i, hstep⟩, hkept⟩ := hs
    obtain ⟨horder, hkeyed, hwithin⟩ := ih
    refine ⟨horder.step (composes_txSystem fun r => fine_request hT r) hstep, ?_⟩
    rcases committed_step horder hstep with hdb | hcounted
    · rw [hdb]
      exact ⟨hkeyed, hwithin⟩
    · obtain ⟨hkeyed', hjust⟩ := hcounted hkeyed
      exact ⟨hkeyed', hwithin.commit hjust hkept⟩

end Together

end WebProxyPanel
