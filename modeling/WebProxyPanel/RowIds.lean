import WebProxyPanel.ManualBan
/-!
# Row ids of users and devices

`INTEGER PRIMARY KEY` without `AUTOINCREMENT`: a new row has the largest existing id plus one. So an
id is given a second time exactly after the row with the largest id has been deleted, and as long as
that row stays, every new id is larger than all ids that were ever used.

* `History` — a sequential run with the ids that its operations return.
* `KeepsLastUser`, `KeepsLastDevice` — an operation leaves the largest id in its table.
-/

namespace WebProxyPanel
open Table Effects Users

/-- The operation deletes the device. -/
def Op.Removes (op : Op) (d : Device) : Prop :=
  (∃ by_, op = .deleteDevice d.id by_) ∨ op = .deleteUser d.userId

/-- It does not delete the user with the largest id. -/
def KeepsLastUser (op : Op) (db : DB) : Prop :=
  ∀ u ∈ db.users, op = .deleteUser u.id → ∃ v ∈ db.users, u.id < v.id

/-- It does not delete the device with the largest id. -/
def KeepsLastDevice (op : Op) (db : DB) : Prop :=
  ∀ d ∈ db.devices, op.Removes d → ∃ e ∈ db.devices, ¬ op.Removes e ∧ d.id < e.id

/-! ## Steps -/

section Steps
variable {T : Int → Prop} {op : Op} {calls : List FwCall} {db db' : DB} {ids : Ids}

/-- Only `create_user` returns a user's id. -/
theorem Effect.new_user (h : Effect T db db' op ids calls) :
    ids.users = [] ∨ ∃ u ∈ db'.users, u.id = nextRowid (db.users.map (·.id)) ∧
      ids.users = [u.id] := by
  cases h with
  | createUser hid _ _ _ _ _ husers _ => exact .inr ⟨_, by simp [husers], hid, rfl⟩
  | _ => exact .inl rfl

/-- A device of the new table was there before, or has the id that is returned. -/
theorem Effect.device_origin (h : Effect T db db' op ids calls) {d' : Device}
    (hd' : d' ∈ db'.devices) :
    (∃ d ∈ db.devices, d.id = d'.id ∧ d.userId = d'.userId) ∨
      d'.id = nextRowid (db.devices.map (·.id)) := by
  have hset : ∀ {f : Device → Device} {deviceId : Int},
      (∀ d, (f d).id = d.id ∧ (f d).userId = d.userId) →
      d' ∈ update (fun d => decide (d.id = deviceId)) f db.devices →
      ∃ d ∈ db.devices, d.id = d'.id ∧ d.userId = d'.userId := by
    intro f deviceId hf hm
    obtain ⟨d, hd, rfl⟩ := mem_update.1 hm
    refine ⟨d, hd, ?_⟩
    split
    · exact ⟨(hf d).1.symm, (hf d).2.symm⟩
    · exact ⟨rfl, rfl⟩
  have hsame : db'.devices = db.devices → ∃ d ∈ db.devices, d.id = d'.id ∧ d.userId = d'.userId :=
    fun he => ⟨d', he ▸ hd', rfl, rfl⟩
  have hsetter : ∀ {f : User → User} {userId : Int} {enableNow : Bool} {reason : Reason},
      Setter T enableNow reason f userId db db' calls → ∃ d ∈ db.devices, d.id = d'.id ∧
      d.userId = d'.userId := by
    intro f userId enableNow reason hs
    cases hs with
    | reenabled _ _ _ _ _ hdevices => exact hsame hdevices
    | changed _ _ _ _ hdevices => exact hsame hdevices
  cases h with
  | createUser _ _ _ hid _ _ _ hdevices =>
    rw [hdevices, List.mem_append, List.mem_singleton] at hd'
    rcases hd' with hd' | rfl
    · exact .inl ⟨d', hd', rfl, rfl⟩
    · exact .inr hid
  | addDevice _ _ hid _ _ _ hdevices =>
    rw [hdevices, List.mem_append, List.mem_singleton] at hd'
    rcases hd' with hd' | rfl
    · exact .inl ⟨d', hd', rfl, rfl⟩
    · exact .inr hid
  | deleteDevice _ _ _ hdevices =>
    rw [hdevices] at hd'
    exact .inl ⟨d', (mem_delete.1 hd').1, rfl, rfl⟩
  | @rotateDevice deviceId slotId _ _ _ _ _ _ _ _ _ _ hdevices =>
    exact .inl (hset (f := fun d => { d with slotId := slotId }) (fun _ => ⟨rfl, rfl⟩)
      (hdevices ▸ hd'))
  | @renameDevice deviceId name name' _ hdevices =>
    exact .inl (hset (f := fun d => { d with name := name' }) (fun _ => ⟨rfl, rfl⟩)
      (hdevices ▸ hd'))
  | disableUser _ _ _ _ _ hdevices => exact .inl (hsame hdevices)
  | wasDisabled _ _ _ _ hdevices => exact .inl (hsame hdevices)
  | enableUser _ _ _ _ hdevices => exact .inl (hsame hdevices)
  | wasEnabled _ _ _ _ hdevices => exact .inl (hsame hdevices)
  | setExpiry hs => exact .inl (hsetter hs)
  | extend _ _ _ _ hs => exact .inl (hsetter hs)
  | setTrafficLimit _ hs => exact .inl (hsetter hs)
  | updateProfile _ hdevices => exact .inl (hsame hdevices)
  | deleteUser _ _ _ hdevices =>
    rw [hdevices] at hd'
    exact .inl ⟨d', (mem_delete.1 hd').1, rfl, rfl⟩

/-- A device stays in the table until it is deleted, or its user is. -/
theorem Effect.device_kept (h : Effect T db db' op ids calls) {d : Device} (hd : d ∈ db.devices) :
    op.Removes d ∨ d.id ∈ db'.devices.map (·.id) := by
  have hm : d.id ∈ db.devices.map (·.id) := List.mem_map_of_mem hd
  have hset : ∀ {f : Device → Device} {deviceId : Int},
      db'.devices = update (fun d => decide (d.id = deviceId)) f db.devices →
      (∀ d, (f d).id = d.id) →
      d.id ∈ db'.devices.map (·.id) := by
    intro f deviceId hdevices hf
    rw [hdevices, map_update (·.id) (fun d _ => hf d)]
    exact hm
  have hsetter : ∀ {f : User → User} {userId : Int} {enableNow : Bool} {reason : Reason},
      Setter T enableNow reason f userId db db' calls → d.id ∈ db'.devices.map (·.id) := by
    intro f userId enableNow reason hs
    cases hs with
    | reenabled _ _ _ _ _ hdevices => exact hdevices ▸ hm
    | changed _ _ _ _ hdevices => exact hdevices ▸ hm
  cases h with
  | createUser _ _ _ _ _ _ _ hdevices =>
    right
    rw [hdevices, List.map_append]
    exact List.mem_append_left _ hm
  | addDevice _ _ _ _ _ _ hdevices =>
    right
    rw [hdevices, List.map_append]
    exact List.mem_append_left _ hm
  | @deleteDevice deviceId by_ _ _ _ _ _ hdevices =>
    by_cases hid : d.id = deviceId
    · exact .inl (.inl ⟨by_, by rw [hid]⟩)
    · right
      rw [hdevices]
      exact List.mem_map_of_mem (mem_delete.2 ⟨hd, by simpa using hid⟩)
  | rotateDevice _ _ _ _ _ _ hdevices => exact .inr (hset hdevices fun _ => rfl)
  | renameDevice _ hdevices => exact .inr (hset hdevices fun _ => rfl)
  | disableUser _ _ _ _ _ hdevices => exact .inr (hdevices ▸ hm)
  | wasDisabled _ _ _ _ hdevices => exact .inr (hdevices ▸ hm)
  | enableUser _ _ _ _ hdevices => exact .inr (hdevices ▸ hm)
  | wasEnabled _ _ _ _ hdevices => exact .inr (hdevices ▸ hm)
  | setExpiry hs => exact .inr (hsetter hs)
  | extend _ _ _ _ hs => exact .inr (hsetter hs)
  | setTrafficLimit _ hs => exact .inr (hsetter hs)
  | updateProfile _ hdevices => exact .inr (hdevices ▸ hm)
  | @deleteUser userId _ _ _ _ hdevices =>
    by_cases hid : d.userId = userId
    · exact .inl (.inr (by rw [hid]))
    · right
      rw [hdevices]
      exact List.mem_map_of_mem (mem_delete.2 ⟨hd, by simpa using hid⟩)

/-- The ids of devices that an operation returns. -/
theorem Effect.new_device (h : Effect T db db' op ids calls) :
    ids.devices = [] ∨ ∃ d ∈ db'.devices, d.id = nextRowid (db.devices.map (·.id)) ∧
      ids.devices = [d.id] := by
  cases h with
  | createUser _ _ _ hid _ _ _ hdevices => exact .inr ⟨_, by simp [hdevices], hid, rfl⟩
  | addDevice _ _ hid _ _ _ hdevices => exact .inr ⟨_, by simp [hdevices], hid, rfl⟩
  | _ => exact .inl rfl

/-- Below an id that is there. -/
def Below (ids : List Int) (id : Int) : Prop := ∃ m ∈ ids, id ≤ m

theorem Below.ne_next {xs : List Int} {id : Int} (h : Below xs id) : id ≠ nextRowid xs := by
  obtain ⟨m, hm, hle⟩ := h
  have := lt_nextRowid hm
  omega

theorem Effect.below_user (h : Effect T db db' op ids calls) (hlast : KeepsLastUser op db)
    {id : Int} (hb : Below (db.users.map (·.id)) id) : Below (db'.users.map (·.id)) id := by
  obtain ⟨_, hm, hle⟩ := hb
  obtain ⟨u, hu, rfl⟩ := List.mem_map.1 hm
  rcases h.user_kept hu with hdel | hkept
  · -- it is not the last one
    obtain ⟨v, hv, hlt⟩ := hlast u hu hdel
    refine ⟨v.id, (h.user_kept hv).resolve_left ?_, by omega⟩
    intro hdel'
    rw [hdel] at hdel'
    injection hdel' with hid
    omega
  · exact ⟨u.id, hkept, hle⟩

theorem Effect.below_device (h : Effect T db db' op ids calls) (hlast : KeepsLastDevice op db)
    {id : Int} (hb : Below (db.devices.map (·.id)) id) : Below (db'.devices.map (·.id)) id := by
  obtain ⟨_, hm, hle⟩ := hb
  obtain ⟨d, hd, rfl⟩ := List.mem_map.1 hm
  rcases h.device_kept hd with hdel | hkept
  · obtain ⟨e, he, hnot, hlt⟩ := hlast d hd hdel
    exact ⟨e.id, (h.device_kept he).resolve_left hnot, by omega⟩
  · exact ⟨d.id, hkept, hle⟩

end Steps

/-! ## Runs -/

/-- Operations one after the other, each allowed by `C` where it starts, with the ids that they
return. -/
inductive History (ok : Allow Action Choice State) (C : Op → DB → Prop) :
    World → List Ids → World → Prop
  | refl (w : World) : History ok C w [] w
  | returned {w w₁ w₂ : World} {xs : List Ids} (op : Op) (n : Nat) (ids : Ids) (l : Own) :
      History ok C w xs w₁ →
      C op w₁.db → sem.Runs ok op.ids (w₁, Own.idle n) (.ok ids) (w₂, l) →
        History ok C w (xs ++ [ids]) w₂
  | raised {w w₁ w₂ : World} {xs : List Ids} (op : Op) (n : Nat) (e : Err) (l : Own) :
      History ok C w xs w₁ →
      C op w₁.db → sem.Runs ok op.ids (w₁, Own.idle n) (.error e) (w₂, l) → History ok C w xs w₂

section Runs
variable {ok : Allow Action Choice State} {C : Op → DB → Prop} {op : Op} {w w' : World} {n : Nat}
  {l : Own}

theorem runs_program {ids : Ids} (h : sem.Runs ok op.ids (w, Own.idle n) (.ok ids) (w', l)) :
    sem.Runs ok op.program (w, Own.idle n) (.ok ()) (w', l) := by
  rw [op.program_eq_ids]
  exact h.bind .refl

theorem runs_program_error {e : Err} (h : sem.Runs ok op.ids (w, Own.idle n) (.error e) (w', l)) :
    sem.Runs ok op.program (w, Own.idle n) (.error e) (w', l) := by
  rw [op.program_eq_ids]
  exact Sem.Steps.bind _ h

/-- An operation that returns, with its ids. -/
theorem returned_moved {ids : Ids} (hw : Resting w)
    (h : sem.Runs ok op.ids (w, Own.idle n) (.ok ids) (w', l)) :
    (People w.db w'.db ∧ ids = .none) ∨ ∃ calls,
      Leaves (fun _ => True) op w.db ids w'.db calls := by
  cases hu : op.isUser with
  | true =>
    obtain ⟨-, calls, hleft, -⟩ := Safe.runs isRely_alone (Op.effect (clocked_any ok) hu rfl) h
    exact .inr ⟨calls, hleft⟩
  | false =>
    refine .inl ⟨runs_people hw hu (runs_program h), ?_⟩
    have hids : op.ids = op.program.bind fun _ => .ret .none := by
      cases op with
      | maintain cfg sizing growShards => rfl
      | sync => rfl
      | _ => simp [Op.isUser] at hu
    rw [hids] at h
    have hsafe : Safe sem ok alone free (post (fun ids _ _ => ids = Ids.none) Whatever)
        (op.program.bind fun _ => .ret Ids.none) w (Own.idle n) := by
      refine Safe.seq isRely_alone (K := fun _ _ _ => True) ?_ fun _ w₁ l₁ _ _ _ => rfl
      refine Safe.any (fun _ _ _ _ => trivial) (fun out _ _ => ?_) _ _ _
      cases out <;> trivial
    exact Safe.runs isRely_alone hsafe h

/-- One that raises. -/
theorem raised_people {e : Err} (hw : Resting w)
    (h : sem.Runs ok op.ids (w, Own.idle n) (.error e) (w', l)) : People w.db w'.db := by
  rcases runs_moved (clocked_any ok) hw (runs_program_error h) with hp | ⟨-, hout, -⟩
  · exact hp
  · simp at hout

theorem History.resting {xs : List Ids} (hw : Resting w) (h : History ok C w xs w') :
    Resting w' := by
  induction h with
  | refl => exact hw
  | returned op n ids l _ _ hr ih => exact (resting_runs ih (runs_program hr)).1
  | raised op n e l _ _ hr ih => exact (resting_runs ih (runs_program_error hr)).1

/-- Every user's id that was returned or is in the journal is below the largest one. -/
structure UsedUsers (xs : List Ids) (db : DB) : Prop where
  returned : ∀ id ∈ xs.flatMap Ids.users, Below (db.users.map (·.id)) id
  logged : ∀ e ∈ db.events, ∀ id, e.userId = some id → Below (db.users.map (·.id)) id
  nodup : (xs.flatMap Ids.users).Nodup

theorem UsedUsers.people {xs : List Ids} {db db' : DB} (h : UsedUsers xs db) (hp : People db db') :
    UsedUsers xs db' := by
  refine ⟨fun id hid => hp.users ▸ h.returned id hid, fun e he id hid => ?_, h.nodup⟩
  rcases hp.events e he with he | hnone
  · exact hp.users ▸ h.logged e he id hid
  · rw [hnone] at hid
    simp at hid

theorem UsedUsers.effect {T : Int → Prop} {xs : List Ids} {db db' : DB} {ids : Ids}
    {calls : List FwCall} (h : UsedUsers xs db) (hl : Leaves T op db ids db' calls)
    (hlast : KeepsLastUser op db) :
    UsedUsers (xs ++ [ids]) db' ∧
      ∀ id ∈ ids.users, id ∉ xs.flatMap Ids.users ∧ ∀ e ∈ db.events, e.userId ≠ some id := by
  have hfresh : ∀ id ∈ ids.users, id = nextRowid (db.users.map (·.id)) ∧
      id ∈ db'.users.map (·.id) := by
    intro id hid
    rcases hl.1.new_user with hnil | ⟨u, hu, hnext, heq⟩
    · rw [hnil] at hid
      simp at hid
    · rw [heq, List.mem_singleton] at hid
      subst hid
      exact ⟨hnext, List.mem_map_of_mem hu⟩
  have hnodup : ids.users.Nodup := by
    rcases hl.1.new_user with hnil | ⟨u, -, -, heq⟩
    · simp [hnil]
    · simp [heq]
  have hnew : ∀ id ∈ ids.users, id ∉ xs.flatMap Ids.users ∧ ∀ e ∈ db.events,
      e.userId ≠ some id := by
    intro id hid
    refine ⟨fun hm => (h.returned id hm).ne_next (hfresh id hid).1, fun e he heq => ?_⟩
    exact (h.logged e he id heq).ne_next (hfresh id hid).1
  refine ⟨⟨fun id hid => ?_, fun e he id hid => ?_, ?_⟩, hnew⟩
  · rw [List.flatMap_append, List.mem_append] at hid
    rcases hid with hid | hid
    · exact hl.1.below_user hlast (h.returned id hid)
    · exact ⟨id, (hfresh id (by simpa using hid)).2, le_refl id⟩
  · rcases hl.2 e he with he | ⟨u, hu, huid⟩
    · exact hl.1.below_user hlast (h.logged e he id hid)
    · rw [hid] at huid
      obtain rfl := Option.some.inj huid
      rcases hu with hu | hu
      · exact hl.1.below_user hlast ⟨u.id, List.mem_map_of_mem hu, le_refl _⟩
      · exact ⟨u.id, List.mem_map_of_mem hu, le_refl _⟩
  · rw [List.flatMap_append, List.flatMap_singleton, List.nodup_append]
    refine ⟨h.nodup, hnodup, ?_⟩
    rintro a ha b hb rfl
    exact (hnew a hb).1 ha

theorem History.usedUsers {xs : List Ids} (hC : ∀ op db, C op db → KeepsLastUser op db)
    (h : History ok C World.initial xs w) : UsedUsers xs w.db := by
  induction h with
  | refl => exact ⟨by simp, by simp [World.initial, DB.empty], by simp⟩
  | returned op n ids l hh hc hr ih =>
    have hrest := hh.resting resting_initial
    rcases returned_moved hrest hr with ⟨hp, rfl⟩ | ⟨calls, hl⟩
    · have := ih.people hp
      exact ⟨by simpa [Ids.none] using this.returned, this.logged, by simpa [Ids.none] using this.nodup⟩
    · exact (ih.effect hl (hC _ _ hc)).1
  | raised op n e l hh hc hr ih => exact ih.people (raised_people (hh.resting resting_initial) hr)

/-- Every device's id that was returned is below the largest one. -/
structure UsedDevices (xs : List Ids) (db : DB) : Prop where
  returned : ∀ id ∈ xs.flatMap Ids.devices, Below (db.devices.map (·.id)) id
  nodup : (xs.flatMap Ids.devices).Nodup

theorem UsedDevices.effect {T : Int → Prop} {xs : List Ids} {db db' : DB} {ids : Ids}
    {calls : List FwCall} (h : UsedDevices xs db) (hl : Leaves T op db ids db' calls)
    (hlast : KeepsLastDevice op db) : UsedDevices (xs ++ [ids]) db' := by
  have hold : ∀ id ∈ xs.flatMap Ids.devices, Below (db'.devices.map (·.id)) id :=
    fun id hid => hl.1.below_device hlast (h.returned id hid)
  rcases hl.1.new_device with hnil | ⟨d, hd, hnext, heq⟩
  · exact ⟨by simpa [hnil] using hold, by simpa [hnil] using h.nodup⟩
  refine ⟨fun id hid => ?_, ?_⟩
  · rw [List.flatMap_append, List.mem_append] at hid
    rcases hid with hid | hid
    · exact hold id hid
    · rw [List.flatMap_singleton, heq, List.mem_singleton] at hid
      exact ⟨d.id, List.mem_map_of_mem hd, hid.le⟩
  · rw [List.flatMap_append, List.flatMap_singleton, heq, List.nodup_append]
    refine ⟨h.nodup, by simp, ?_⟩
    rintro a ha b hb rfl
    rw [List.mem_singleton] at hb
    exact (h.returned a ha).ne_next (hb.trans hnext)

theorem History.usedDevices {xs : List Ids} (hC : ∀ op db, C op db → KeepsLastDevice op db)
    (h : History ok C World.initial xs w) : UsedDevices xs w.db := by
  induction h with
  | refl => exact ⟨by simp, by simp⟩
  | returned op n ids l hh hc hr ih =>
    have hrest := hh.resting resting_initial
    rcases returned_moved hrest hr with ⟨hp, rfl⟩ | ⟨calls, hl⟩
    · exact ⟨by simpa [Ids.none, hp.devices] using ih.returned, by simpa [Ids.none] using ih.nodup⟩
    · exact ih.effect hl (hC _ _ hc)
  | raised op n e l hh hc hr ih =>
    have hp := raised_people (hh.resting resting_initial) hr
    exact ⟨fun id hid => hp.devices ▸ ih.returned id hid, ih.nodup⟩

/-- An id stands for one device, as long as the last one is not deleted. -/
theorem History.device_owner {xs : List Ids} (hC : ∀ op db, C op db → KeepsLastDevice op db)
    (hw : Resting w) (h : History ok C w xs w') {d : Device} (hd : d ∈ w.db.devices) :
    Below (w'.db.devices.map (·.id)) d.id ∧ ∀ d' ∈ w'.db.devices, d'.id = d.id →
      d'.userId = d.userId := by
  induction h with
  | refl =>
    refine ⟨⟨d.id, List.mem_map_of_mem hd, le_refl _⟩, fun d' hd' hid => ?_⟩
    rw [eq_of_key hw.world.1.consistent.deviceId hd' hd hid]
  | returned op n ids l hh hc hr ih =>
    obtain ⟨hbelow, howner⟩ := ih
    rcases returned_moved (hh.resting hw) hr with ⟨hp, -⟩ | ⟨calls, hl⟩
    · rw [hp.devices]
      exact ⟨hbelow, howner⟩
    · refine ⟨hl.1.below_device (hC _ _ hc) hbelow, fun d' hd' hid => ?_⟩
      rcases hl.1.device_origin hd' with ⟨d₁, hd₁, hid₁, howner₁⟩ | hnext
      · rw [← howner₁]
        exact howner d₁ hd₁ (hid₁.trans hid)
      · exact absurd (hid.symm.trans hnext) hbelow.ne_next
  | raised op n e l hh hc hr ih =>
    rw [(raised_people (hh.resting hw) hr).devices]
    exact ih

/-- The operations one after the other, each of which is as `C` says and returns, with their ids. -/
def playIds (allow : Choice → {β : Type} → Action β → State → Bool) (C : Op → DB → Prop)
    [∀ op db, Decidable (C op db)] :
    List (Op × List Choice) → World → Option (List Ids × World)
  | [], w => some ([], w)
  | (op, cs) :: rest, w =>
    if C op w.db then (sem.play allow cs op.ids (w, Own.idle 0)).bind fun x =>
      match x.1.outcome? with
      | some (.ok ids) => (playIds allow C rest x.2.1).map fun y => (ids :: y.1, y.2)
      | _ => none
    else none

theorem history_of_playIds {allow : Choice → {β : Type} → Action β → State → Bool}
    [∀ op db, Decidable (C op db)] {w₀ : World} :
    ∀ {steps : List (Op × List Choice)} {w w' : World} {xs ys : List Ids},
      History (fun c {_} a s => allow c a s = true) C w₀ xs w →
        playIds allow C steps w = some (ys, w') →
      History (fun c {_} a s => allow c a s = true) C w₀ (xs ++ ys) w'
  | [], w, w', xs, ys, hh, hp => by
    obtain ⟨rfl, rfl⟩ := Prod.mk.inj (Option.some.inj hp)
    simpa using hh
  | (op, cs) :: rest, w, w', xs, ys, hh, hp => by
    rw [playIds] at hp
    split at hp
    · rename_i hc
      obtain ⟨⟨p, w₁, l⟩, hplay, hp⟩ := Option.bind_eq_some_iff.1 hp
      dsimp only at hp
      split at hp
      · rename_i ids hout
        obtain ⟨⟨zs, w₂⟩, hrest, hp⟩ := Option.map_eq_some_iff.1 hp
        obtain ⟨rfl, rfl⟩ := Prod.mk.inj hp
        have hout := Prog.outcome?_eq_some.1 hout
        subst hout
        have hfirst := History.returned op 0 ids l hh hc (Sem.Steps.of_play hplay)
        have := history_of_playIds hfirst hrest
        rwa [List.append_assoc] at this
      · simp at hp
    · cases hp

end Runs

/-- As long as no operation deletes the user with the largest id, `create_user` never returns an id
a second time, nor one that is already in the journal; as long as none deletes the device with the
largest id, no device id is returned a second time, and an id never comes to stand for a device of
another user. -/
theorem ids_not_reused (ok : Allow Action Choice State) (C : Op → DB → Prop) (xs : List Ids)
    (w : World) (hist : History ok C World.initial xs w) :
    ((∀ op db, C op db → KeepsLastUser op db) → (xs.flatMap Ids.users).Nodup ∧
      ∀ (op : Op) (n : Nat) (ids : Ids) (w' : World) (l : Own), C op w.db →
        sem.Runs ok op.ids (w, Own.idle n) (.ok ids) (w', l) →
        ∀ id ∈ ids.users, id ∉ xs.flatMap Ids.users ∧ ∀ e ∈ w.db.events, e.userId ≠ some id) ∧
    ((∀ op db, C op db → KeepsLastDevice op db) → (xs.flatMap Ids.devices).Nodup ∧
      ∀ (ys : List Ids) (w' : World), History ok C w ys w' → ∀ d ∈ w.db.devices,
        ∀ d' ∈ w'.db.devices,
        d'.id = d.id → d'.userId = d.userId) := by
  have hrest := hist.resting resting_initial
  refine ⟨fun hC => ⟨(hist.usedUsers hC).nodup, fun op n ids w' l hc hr id hid => ?_⟩,
    fun hC => ⟨(hist.usedDevices hC).nodup, fun ys w' hlater d hd d' hd' hid => ?_⟩⟩
  · rcases returned_moved hrest hr with ⟨-, rfl⟩ | ⟨calls, hl⟩
    · simp [Ids.none] at hid
    · exact ((hist.usedUsers hC).effect hl (hC _ _ hc)).2 id hid
  · exact (hlater.device_owner hC hrest hd).2 d' hd' hid

/-- Nothing that is deleted has the largest id of its table. -/
def KeepsLast (op : Op) (db : DB) : Prop := match op with
  | .deleteUser userId => (∃ v ∈ db.users, userId < v.id) ∧
      ∀ d ∈ db.devices, d.userId = userId → ∃ e ∈ db.devices, e.userId ≠ userId ∧ d.id < e.id
  | .deleteDevice deviceId _ => ∃ e ∈ db.devices, deviceId < e.id
  | _ => True

instance (op : Op) (db : DB) : Decidable (KeepsLast op db) := by
  cases op <;> unfold KeepsLast <;> infer_instance

theorem KeepsLast.user {op : Op} {db : DB} (h : KeepsLast op db) : KeepsLastUser op db := by
  rintro u hu rfl
  exact h.1

theorem KeepsLast.device {op : Op} {db : DB} (h : KeepsLast op db) : KeepsLastDevice op db := by
  rintro d hd (⟨by_, rfl⟩ | rfl)
  · obtain ⟨e, he, hlt⟩ := h
    refine ⟨e, he, ?_, hlt⟩
    simp only [Op.Removes, Op.deleteDevice.injEq, reduceCtorEq, or_false, not_exists, not_and]
    exact fun _ hid => absurd hid (ne_of_lt hlt)
  · obtain ⟨e, he, hne, hlt⟩ := h.2 d hd rfl
    refine ⟨e, he, ?_, hlt⟩
    simpa [Op.Removes] using Ne.symm hne

/-- Three users, of whom the first loses a device and the second goes, and then another one. -/
def threeUsers : List (Op × List Choice) :=
  [(samplePool, growOnce ((List.range 16).map sampleToken)), (.createUser pairUser, createOnce),
    (.addDevice 1 "panel" none, succeed 4 ++ [.inputs ⟨[0, 0], []⟩] ++ succeed 2),
    (.createUser sampleUser, createOnce),
    (.createUser sampleUser, createOnce), (.deleteDevice 2 "panel", switchOnce),
    (.deleteUser 2, switchOnce),
    (.createUser sampleUser, createOnce)]

theorem threeUsers_plays : (playIds anything KeepsLast threeUsers World.initial).map (fun x =>
    (x.1.flatMap Ids.users, x.1.flatMap Ids.devices, x.2.db.users.map (·.id),
      x.2.db.devices.map (·.id))) =
    some ([1, 2, 3, 4], [1, 2, 3, 4, 5], [1, 3, 4], [1, 4, 5]) := by decide +kernel

theorem ids_not_reused_threeUsers : ∃ (xs : List Ids) (w : World),
    playIds anything KeepsLast threeUsers World.initial = some (xs, w) ∧
      w.db.users.map (·.id) = [1, 3, 4] ∧
      (xs.flatMap Ids.users).Nodup ∧ (xs.flatMap Ids.devices).Nodup := by
  obtain ⟨⟨xs, w⟩, hplay, hend⟩ := Option.map_eq_some_iff.1 threeUsers_plays
  have hhist := history_of_playIds (.refl (w := World.initial)) hplay
  have h := ids_not_reused _ _ _ _ hhist
  exact ⟨xs, w, hplay, (Prod.mk.inj (Prod.mk.inj (Prod.mk.inj hend).2).2).1,
    (h.1 fun _ _ hc => hc.user).1, (h.2 fun _ _ hc => hc.device).1⟩

def twoUsers : List (Op × List Choice) :=
  [(samplePool, growOnce ((List.range 16).map sampleToken)),
    (.createUser pairUser, createOnce), (.createUser sampleUser, createOnce)]

/-- The second user is deleted, the first one gets a second device, and another user is created. -/
def deleteAndCreate : List (Op × List Choice) :=
  [(.deleteUser 2, switchOnce),
    (.addDevice 1 "panel" none, succeed 4 ++ [.inputs ⟨[0, 0], []⟩] ++ succeed 2),
    (.createUser sampleUser, createOnce)]

theorem deleteAndCreate_plays :
    ((playIds anything (fun _ _ => True) twoUsers World.initial).bind fun x =>
      (playIds anything (fun _ _ => True) deleteAndCreate x.2).map fun y =>
        (((x.1 ++ y.1).flatMap Ids.users, (x.1 ++ y.1).flatMap Ids.devices),
          x.2.db.devices.map (fun d => (d.id, d.userId)),
          y.2.db.devices.map fun d => (d.id, d.userId))) =
      some (([1, 2, 2], [1, 2, 2, 3]), [(1, 1), (2, 2)], [(1, 1), (2, 1), (3, 2)]) := by
  decide +kernel

/-- The ids of a deleted user and of its device are given again, the device's id to a device of
another user. -/
theorem ids_reused : ∃ (xs ys : List Ids) (w₁ w₂ : World),
    History (fun c {_} a s => anything c a s = true) (fun _ _ => True) World.initial xs w₁ ∧
    History (fun c {_} a s => anything c a s = true) (fun _ _ => True) World.initial (xs ++ ys) w₂ ∧
    ¬ ((xs ++ ys).flatMap Ids.users).Nodup ∧ ¬ ((xs ++ ys).flatMap Ids.devices).Nodup ∧
    ∃ d ∈ w₁.db.devices, ∃ d' ∈ w₂.db.devices, d'.id = d.id ∧ d'.userId ≠ d.userId := by
  obtain ⟨⟨xs, w₁⟩, hfirst, hr⟩ := Option.bind_eq_some_iff.1 deleteAndCreate_plays
  obtain ⟨⟨ys, w₂⟩, hsecond, hr⟩ := Option.map_eq_some_iff.1 hr
  obtain ⟨⟨husers, hdevices⟩, hbefore, hafter⟩ := by simpa using hr
  have hhist := history_of_playIds (C := fun _ _ => True) (.refl (w := World.initial)) hfirst
  obtain ⟨d, hd, hid⟩ : ∃ d ∈ w₁.db.devices, (d.id, d.userId) = (2, 2) :=
    List.mem_map.1 (by rw [hbefore]; simp)
  obtain ⟨d', hd', hid'⟩ : ∃ d ∈ w₂.db.devices, (d.id, d.userId) = (2, 1) :=
    List.mem_map.1 (by rw [hafter]; simp)
  obtain ⟨hid, howner⟩ := Prod.mk.inj hid
  obtain ⟨hid', howner'⟩ := Prod.mk.inj hid'
  refine ⟨xs, ys, w₁, w₂, hhist, history_of_playIds hhist hsecond, ?_, ?_, d, hd, d', hd', ?_, ?_⟩
  · rw [List.flatMap_append, husers]
    decide
  · rw [List.flatMap_append, hdevices]
    decide
  · rw [hid, hid']
  · rw [howner, howner']
    decide

end WebProxyPanel
