import WebProxyPanel.People
/-!
# The enabled state of a user

`users.enabled` and `users.disabled_reason` as a state machine: `UserMove` has one rule for each way
in which an operation can change them, and `Effect.move` says that there is no other.
`enabled_state` is the result for every operation of every sequential run, with the firewall calls
that go with a change.
-/

namespace WebProxyPanel
open Table Effects Users

/-- A setter with `enable_now`, for the reason that is stored. -/
def MayReenable (op : Op) (u : User) : Prop :=
  ((∃ expiresAt, op = .setExpiry u.id expiresAt true) ∨ ∃ days, op = .extend u.id days true) ∧
      u.disabledReason = some .expired ∨
    (∃ limit reset, op = .setTrafficLimit u.id limit reset true) ∧
      u.disabledReason = some .trafficLimit

/-- From the row `u` to the row `u'` of the same user. -/
inductive UserMove (T : Int → Prop) (op : Op) (calls : List FwCall) (db : DB) (u u' : User) : Prop
  | same : u'.enabled = u.enabled → u'.disabledReason = u.disabledReason →
      UserMove T op calls db u u'
  | off {text : String} {reason : Reason} : op = .disableUser u.id text →
      reasonOf text = some reason → u.enabled ≠ 0 →
      u'.enabled = 0 → u'.disabledReason = some reason → calls = blockCalls (devicePorts u.id db) →
      UserMove T op calls db u u'
  | on : op = .enableUser u.id → u.enabled = 0 → u'.enabled = 1 → u'.disabledReason = none →
      calls = unblockCalls (devicePorts u.id db) → UserMove T op calls db u u'
  | back {t : Int} : MayReenable op u → T t → expired u' t = false → limitReached u' = false →
      u.enabled = 0 →
      u'.enabled = 1 → u'.disabledReason = none → calls = unblockCalls (devicePorts u.id db) →
        UserMove T op calls db u u'

/-- A user of the new table: a new one, or an old one that has moved. -/
def Moved (T : Int → Prop) (op : Op) (calls : List FwCall) (db : DB) (u' : User) : Prop :=
  (u'.id ∉ db.users.map (·.id) ∧ u'.enabled = 1 ∧ u'.disabledReason = none) ∨
    ∃ u ∈ db.users, u'.id = u.id ∧ UserMove T op calls db u u'

section Moves
variable {T : Int → Prop} {op : Op} {calls : List FwCall} {db db' : DB} {u' : User} {ids : Ids}

theorem moved_of_mem (h : u' ∈ db.users) : Moved T op calls db u' :=
  .inr ⟨u', h, rfl, .same rfl rfl⟩

/-- The updated row, and the others. -/
theorem moved_update {f : User → User} {userId : Int} (hf : ∀ u, (f u).id = u.id)
    (h : ∀ u ∈ db.users, u.id = userId → UserMove T op calls db u (f u))
    (hu' : u' ∈ update (fun u => decide (u.id = userId)) f db.users) : Moved T op calls db u' := by
  obtain ⟨u, hu, rfl⟩ := mem_update.1 hu'
  by_cases hid : u.id = userId
  · rw [if_pos (decide_eq_true hid)]
    exact .inr ⟨u, hu, hf u, h u hu hid⟩
  · rw [if_neg (by simpa using hid)]
    exact moved_of_mem hu

theorem moved_setter {f : User → User} {userId : Int} {enableNow : Bool} {reason : Reason}
    (hc : db.Consistent) (h : Setter T enableNow reason f userId db db' calls)
    (hf : ∀ u, (f u).id = u.id ∧ (f u).enabled = u.enabled ∧
      (f u).disabledReason = u.disabledReason)
    (hmay : ∀ u, u.id = userId → enableNow = true → u.disabledReason = some reason →
      MayReenable op u)
    (hu' : u' ∈ db'.users) : Moved T op calls db u' := by
  cases h with
  | @reenabled u₀ hu₀ hid₀ hen hre husers hdevices =>
    rw [husers] at hu'
    refine moved_update (f := fun u => setEnabled (f u)) (fun u => (hf u).1)
      (fun u hu hid => ?_) hu'
    -- the id is the key
    obtain rfl : u = u₀ := eq_of_key hc.userId hu hu₀ (hid.trans hid₀.symm)
    obtain ⟨h0, hreason, t, ht, hexp, hlim⟩ := hre
    rw [(hf u).2.1] at h0
    rw [(hf u).2.2] at hreason
    subst hid
    exact .back (hmay u rfl hen hreason) ht hexp hlim h0 rfl rfl rfl
  | changed _ _ _ husers hdevices =>
    rw [husers] at hu'
    exact moved_update (fun u => (hf u).1) (fun u _ _ => .same (hf u).2.1 (hf u).2.2) hu'

/-- There is no other way to change the flag or the reason. -/
theorem Effect.move (hc : db.Consistent) (h : Effect T db db' op ids calls) (hu' : u' ∈ db'.users) :
    Moved T op calls db u' := by
  cases h with
  | @createUser a u d p hid hen hreason _ _ _ husers _ =>
    rw [husers, List.mem_append, List.mem_singleton] at hu'
    rcases hu' with hu' | rfl
    · exact moved_of_mem hu'
    · exact .inl ⟨hid ▸ nextRowid_notMem _, hen, hreason⟩
  | addDevice _ _ _ _ _ husers _ => exact moved_of_mem (husers ▸ hu')
  | deleteDevice _ _ husers _ => exact moved_of_mem (husers ▸ hu')
  | rotateDevice _ _ _ _ _ husers _ => exact moved_of_mem (husers ▸ hu')
  | renameDevice husers _ => exact moved_of_mem (husers ▸ hu')
  | @disableUser userId text reason u₀ hreason hu₀ hid₀ hen husers _ =>
    rw [husers] at hu'
    refine moved_update (f := setDisabled reason) (fun _ => rfl) (fun u hu hid => ?_) hu'
    obtain rfl : u = u₀ := eq_of_key hc.userId hu hu₀ (hid.trans hid₀.symm)
    subst hid
    exact .off rfl hreason hen rfl rfl rfl
  | wasDisabled _ _ _ husers _ => exact moved_of_mem (husers ▸ hu')
  | @enableUser userId u₀ hu₀ hid₀ h0 husers _ =>
    rw [husers] at hu'
    refine moved_update (f := setEnabled) (fun _ => rfl) (fun u hu hid => ?_) hu'
    obtain rfl : u = u₀ := eq_of_key hc.userId hu hu₀ (hid.trans hid₀.symm)
    subst hid
    exact .on rfl h0 rfl rfl rfl
  | wasEnabled _ _ _ husers _ => exact moved_of_mem (husers ▸ hu')
  | @setExpiry userId expiresAt enableNow _ hset =>
    refine moved_setter hc hset (fun _ => ⟨rfl, rfl, rfl⟩)
      (fun u hid hen hreason => .inl ⟨.inl ⟨expiresAt, ?_⟩, hreason⟩) hu'
    rw [hid, hen]
  | @extend userId days enableNow _ _ _ _ _ _ _ hset =>
    refine moved_setter hc hset (fun _ => ⟨rfl, rfl, rfl⟩)
      (fun u hid hen hreason => .inl ⟨.inr ⟨days, ?_⟩, hreason⟩) hu'
    rw [hid, hen]
  | @setTrafficLimit userId limit text _ enableNow _ _ hset =>
    refine moved_setter hc hset (fun _ => ⟨rfl, rfl, rfl⟩)
      (fun u hid hen hreason => .inr ⟨⟨limit, text, ?_⟩, hreason⟩) hu'
    rw [hid, hen]
  | updateProfile husers _ =>
    have hm : u'.standing ∈ db.users.map User.standing := husers ▸ List.mem_map_of_mem hu'
    obtain ⟨u, hu, hst⟩ := List.mem_map.1 hm
    refine .inr ⟨u, hu, (congrArg Standing.id hst).symm, .same ?_ ?_⟩
    · exact (congrArg Standing.enabled hst).symm
    · exact (congrArg Standing.reason hst).symm
  | deleteUser _ _ husers _ =>
    rw [husers] at hu'
    exact moved_of_mem (mem_delete.1 hu').1

end Moves

/-! ## Ports that are unblocked -/

/-- The ports that some calls ask to unblock. -/
def opened (calls : List FwCall) : List Int := calls.flatMap FwCall.opens

@[simp] theorem opened_nil : opened [] = [] := rfl

@[simp] theorem opened_append (cs ds : List FwCall) : opened (cs ++ ds) = opened cs ++ opened ds :=
  List.flatMap_append

@[simp] theorem opened_blockCalls (ports : List Int) : opened (blockCalls ports) = [] := by
  unfold blockCalls
  split <;> rfl

@[simp] theorem mem_opened_unblockCalls {ports : List Int} {p : Int} :
    p ∈ opened (unblockCalls ports) ↔ p ∈ ports := by
  unfold unblockCalls
  split
  · rename_i h
    simp [sortedSet_eq_nil.1 h]
  · simp [opened, FwCall.opens]

/-- The port belongs to a device of an enabled user; if the operation takes a slot, to the device it
takes it from. -/
def OpenedFor (op : Op) (db db' : DB) (p : Int) : Prop :=
  ∃ d ∈ db'.devices, HasPort db' d p ∧ (∀ u ∈ db'.users, u.id = d.userId → u.enabled ≠ 0) ∧
    ∀ d₁ ∈ db.devices, op.TakesSlot d₁ → d.userId = d₁.userId

section Opened
variable {T : Int → Prop} {op : Op} {calls : List FwCall} {db db' : DB} {ids : Ids} {p : Int}

/-- `unblock` of all ports of a user who is enabled now. -/
theorem openedFor_devicePorts {f : User → User} {userId : Int} (hen : ∀ u, (f u).enabled ≠ 0)
    (husers : db'.users = update (fun u => decide (u.id = userId)) f db.users)
    (hlinks : ∀ d ∈ db.devices, op.TakesSlot d ∨ KeepsLink db db' d)
    (htakes : ∀ d, ¬ op.TakesSlot d) (hp : p ∈ devicePorts userId db) : OpenedFor op db db' p := by
  obtain ⟨d, hd, hdu, s, hs, hsid, hport⟩ := mem_devicePorts.1 hp
  obtain ⟨⟨d', hd', -, hdu', hslot⟩, hslots⟩ := (hlinks d hd).resolve_left (htakes d)
  obtain ⟨s', hs', hsid', hport', -⟩ := hslots s hs hsid
  refine ⟨d', hd', ⟨s', hs', hsid'.trans (hsid.trans hslot.symm), hport'.trans hport⟩,
    fun u hu huid => ?_, fun d₁ _ ht => absurd ht (htakes d₁)⟩
  rw [husers] at hu
  obtain ⟨v, hv, rfl⟩ := mem_update.1 hu
  by_cases hvid : v.id = userId
  · rw [if_pos (decide_eq_true hvid)]
    exact hen v
  · rw [if_neg (by simpa using hvid)] at huid
    exact absurd (huid.trans (hdu'.trans hdu)) hvid

theorem openedFor_setter {f : User → User} {userId : Int} {enableNow : Bool} {reason : Reason}
    (h : Setter T enableNow reason f userId db db' calls)
    (hlinks : ∀ d ∈ db.devices, op.TakesSlot d ∨ KeepsLink db db' d)
    (htakes : ∀ d, ¬ op.TakesSlot d) (hp : p ∈ opened calls) : OpenedFor op db db' p := by
  cases h with
  | reenabled _ _ _ _ husers _ =>
    refine openedFor_devicePorts (f := fun u => setEnabled (f u)) (fun _ => by simp [setEnabled])
      husers hlinks htakes ?_
    simpa using hp
  | changed => simp at hp

/-- Whatever an operation unblocks belongs to a user who is enabled after it. -/
theorem Effect.opened (hc : db.Consistent) (h : Effect T db db' op ids calls)
    (hlinks : ∀ d ∈ db.devices, op.TakesSlot d ∨ KeepsLink db db' d) (hp : p ∈ opened calls) :
    OpenedFor op db db' p := by
  cases h with
  | @createUser a u d q hid hen _ _ hdu hport husers hdevices =>
    obtain rfl : p = q := by simpa using hp
    refine ⟨d, by simp [hdevices], hport, fun v hv hvid => ?_, fun d₁ _ ht => by simp [Op.TakesSlot] at ht⟩
    rw [husers, List.mem_append, List.mem_singleton] at hv
    rcases hv with hv | rfl
    · have hm : v.id ∈ db.users.map (·.id) := List.mem_map_of_mem hv
      rw [hvid, hdu, hid] at hm
      exact absurd hm (nextRowid_notMem _)
    · simp [hen]
  | @addDevice userId createdBy name u d q hu huid _ hdu hport husers hdevices =>
    by_cases hen : u.enabled ≠ 0
    · rw [if_pos hen] at hp
      obtain rfl : p = q := by simpa using hp
      refine ⟨d, by simp [hdevices], hport, fun v hv hvid => ?_, fun d₁ _ ht => by simp [Op.TakesSlot] at ht⟩
      rw [husers] at hv
      rwa [eq_of_key hc.userId hv hu (hvid.trans (hdu.trans huid.symm))]
    · rw [if_neg hen] at hp
      simp at hp
  | @rotateDevice deviceId slotId d u old q hd hid hu huid hport husers hdevices =>
    by_cases hen : u.enabled ≠ 0
    · rw [if_pos hen] at hp
      obtain rfl : p = q := by simpa using hp
      refine ⟨{ d with slotId := slotId }, ?_, hport, fun v hv hvid => ?_, fun d₁ hd₁ ht => ?_⟩
      · rw [hdevices]
        exact mem_update.2 ⟨d, hd, by rw [if_pos (decide_eq_true hid)]⟩
      · rw [husers] at hv
        rwa [eq_of_key hc.userId hv hu (hvid.trans huid.symm)]
      · have hid₁ : d₁.id = d.id := by
          simp only [Op.TakesSlot, Op.rotateDevice.injEq, reduceCtorEq, exists_false, or_false]
            at ht
          rw [← ht, hid]
        rw [eq_of_key hc.deviceId hd₁ hd hid₁]
    · rw [if_neg hen] at hp
      simp at hp
  | enableUser _ _ _ husers _ =>
    refine openedFor_devicePorts (f := setEnabled) (fun _ => by simp [setEnabled]) husers hlinks ?_
      (by simpa using hp)
    simp [Op.TakesSlot]
  | setExpiry hset => exact openedFor_setter hset hlinks (by simp [Op.TakesSlot]) hp
  | extend _ _ _ _ hset => exact openedFor_setter hset hlinks (by simp [Op.TakesSlot]) hp
  | setTrafficLimit _ hset => exact openedFor_setter hset hlinks (by simp [Op.TakesSlot]) hp
  | deleteDevice => simp at hp
  | renameDevice => simp at hp
  | disableUser => simp at hp
  | wasDisabled => simp at hp
  | wasEnabled => simp at hp
  | updateProfile => simp at hp
  | deleteUser => simp at hp

/-- A port of a user who is disabled after the operation is not unblocked. -/
theorem OpenedFor.not_port (hc' : db'.Consistent) (h : OpenedFor op db db' p)
    (hlinks : ∀ d ∈ db.devices, op.TakesSlot d ∨ KeepsLink db db' d) {u : User} (hu : u ∈ db'.users)
    (h0 : u.enabled = 0) : p ∉ devicePorts u.id db ∧ p ∉ devicePorts u.id db' := by
  obtain ⟨d, hd, ⟨s, hs, hsid, hport⟩, hen, htakes⟩ := h
  have hafter : p ∉ devicePorts u.id db' := by
    intro hm
    obtain ⟨d', hd', hdu', s', hs', hsid', hport'⟩ := mem_devicePorts.1 hm
    -- port, slot and device determine each other
    obtain rfl : s = s' := eq_of_key hc'.slotPort hs hs' (hport.trans hport'.symm)
    obtain rfl : d = d' := eq_of_key hc'.deviceSlot hd hd' (hsid.symm.trans hsid')
    exact hen u hu hdu'.symm h0
  refine ⟨fun hm => ?_, hafter⟩
  obtain ⟨d₁, hd₁, hdu₁, s₁, hs₁, hsid₁, hport₁⟩ := mem_devicePorts.1 hm
  rcases hlinks d₁ hd₁ with ht | ⟨⟨d', hd', -, hdu', hslot⟩, hslots⟩
  · exact hen u hu ((htakes d₁ hd₁ ht).trans hdu₁).symm h0
  · obtain ⟨s', hs', hsid', hport', -⟩ := hslots s₁ hs₁ hsid₁
    refine hafter (mem_devicePorts.2 ⟨d', hd', hdu'.trans hdu₁, s', hs', ?_, hport'.trans hport₁⟩)
    exact hsid'.trans (hsid₁.trans hslot.symm)

end Opened

/-! ## Runs -/

/-- `enabled = 1` exactly for the users without a reason. -/
def ReasonMatches (db : DB) : Prop := ∀ u ∈ db.users, u.enabled = 1 ↔ u.disabledReason = none

theorem ReasonMatches.move {T : Int → Prop} {op : Op} {calls : List FwCall} {db db' : DB}
    {ids : Ids} (hc : db.Consistent) (h : ReasonMatches db)
    (heffect : Effect T db db' op ids calls) : ReasonMatches db' := by
  intro u' hu'
  rcases heffect.move hc hu' with ⟨-, hen, hreason⟩ | ⟨u, hu, -, hmove⟩
  · simp [hen, hreason]
  cases hmove with
  | same hen hreason => rw [hen, hreason]; exact h u hu
  | off _ _ _ hen hreason => simp [hen, hreason]
  | on _ _ hen hreason => simp [hen, hreason]
  | back _ _ _ _ _ hen hreason => simp [hen, hreason]

theorem clocked_any (ok : Allow Action Choice State) : Clocked (fun _ => True) ok :=
  fun _ _ _ _ _ _ _ => trivial

theorem sequence_reasonMatches {ok : Allow Action Choice State} {w w' : World} (hw : Resting w)
    (h : ReasonMatches w.db) (hs : Sequence ok w w') : ReasonMatches w'.db := by
  induction hs with
  | refl => exact h
  | tail op n out l hseq hr ih =>
    have hrest := hseq.resting hw
    rcases runs_moved (clocked_any ok) hrest hr with hp | ⟨-, -, ids, hleaves⟩
    · intro u hu
      rw [hp.users] at hu
      exact ih u hu
    · exact ih.move hrest.world.1.consistent hleaves.1

/-- What one operation may do to the flag of a user who is there before and after it. -/
structure FlagStep (T : Int → Prop) (op : Op) (out : Except Err Unit) (calls : List FwCall)
    (db db' : DB) (u u' : User) :
    Prop where
  off : u.enabled = 1 → u'.enabled = 0 →
    (∃ reason, op = .disableUser u.id reason) ∧ calls = blockCalls (devicePorts u.id db)
  on : u.enabled = 0 → u'.enabled = 1 →
    (op = .enableUser u.id ∨ MayReenable op u ∧ ∃ t, T t ∧ expired u' t = false ∧
      limitReached u' = false) ∧ calls = unblockCalls (devicePorts u.id db)
  kept : op.isUser = true → out = .ok () → u.enabled = 0 → u'.enabled = 0 →
    ∀ p ∈ opened calls, p ∉ devicePorts u.id db ∧ p ∉ devicePorts u.id db'

/-- In every state of a sequential run a user is enabled exactly if no reason is stored; the flag is
cleared only by `disable_user`, and set only by `enable_user` or by a setter for the stored reason
when no cause is left at a clock reading of this very operation (`T`); each change comes with one
call on all ports of the user's devices; and an operation that leaves a user disabled unblocks none
of their ports. -/
theorem enabled_state (ok₀ ok : Allow Action Choice State) (T : Int → Prop) (hT : Clocked T ok)
    (w w' : World) (hseq : Sequence ok₀ World.initial w) (op : Op) (n : Nat) (out : Except Err Unit)
    (l : Own) (hrun : sem.Runs ok op.program (w, Own.idle n) out (w', l)) :
    ReasonMatches w.db ∧ ∀ u ∈ w.db.users, ∀ u' ∈ w'.db.users, u'.id = u.id →
      FlagStep T op out (firewallCalls l.trace) w.db w'.db u u' := by
  have hrest := hseq.resting resting_initial
  have hinv := hrest.world.1
  have hinv' := (resting_runs hrest hrun).1.world.1
  refine ⟨sequence_reasonMatches resting_initial
    (fun u hu => by simp [World.initial, DB.empty] at hu) hseq, ?_⟩
  intro u hu u' hu' hid
  have hlinks : ∀ d ∈ w.db.devices, op.TakesSlot d ∨ KeepsLink w.db w'.db d :=
    fun d hd => runs_links hrest hrun hd
  rcases runs_moved hT hrest hrun with hp | ⟨-, rfl, ids, heffect, -⟩
  · -- the row is the same
    rw [hp.users] at hu'
    obtain rfl : u' = u := eq_of_key hinv.consistent.userId hu' hu hid
    refine ⟨fun h1 h0 => by omega, fun h0 h1 => by omega, fun huser hout h0 _ p hport => ?_⟩
    subst hout
    obtain ⟨ids, heffect, -⟩ := runs_effect hT huser hrun
    have hopen := heffect.opened hinv.consistent hlinks hport
    exact hopen.not_port hinv'.consistent hlinks (hp.users ▸ hu) h0
  · rcases heffect.move hinv.consistent hu' with ⟨hnew, -, -⟩ | ⟨v, hv, hvid, hmove⟩
    · exact absurd (hid ▸ List.mem_map_of_mem hu) hnew
    obtain rfl : v = u := eq_of_key hinv.consistent.userId hv hu (hvid.symm.trans hid)
    refine ⟨fun h1 h0 => ?_, fun h0 h1 => ?_, fun _ _ h0 h0' p hport => ?_⟩
    · cases hmove with
      | same hen _ => omega
      | off hop _ _ _ _ hcalls => exact ⟨⟨_, hop⟩, hcalls⟩
      | on _ h0' _ _ _ => omega
      | back _ _ _ _ h0' _ _ _ => omega
    · cases hmove with
      | same hen _ => omega
      | off _ _ hen _ _ _ => exact absurd h0 hen
      | on hop _ _ _ hcalls => exact ⟨.inl hop, hcalls⟩
      | back hmay ht hexp hlim _ _ _ hcalls => exact ⟨.inr ⟨hmay, _, ht, hexp, hlim⟩, hcalls⟩
    · have hopen := heffect.opened hinv.consistent hlinks hport
      rw [← hid]
      exact hopen.not_port hinv'.consistent hlinks hu' h0'

/-! ### A user whose access lapses and is renewed -/

/-- The expiry is set to 500 when the clock shows 10. -/
def lapsingSetup : List (Op × List Choice) :=
  sampleSetup ++ [(.setExpiry 1 (some 500) false, succeed 4 ++ [.inputs ⟨[10], []⟩] ++ succeed 1)]

/-- `disable_user` at 600. -/
def lapse : Op × List Choice :=
  (.disableUser 1 "expired", succeed 4 ++ [.inputs ⟨[600], []⟩] ++ succeed 2)

/-- `set_expiry` to 5000 at 1000. -/
def renewal : Op × List Choice :=
  (.setExpiry 1 (some 5000) true, succeed 4 ++
    [.inputs ⟨[1000], []⟩, .inputs ⟨[1000, 1000], []⟩] ++ succeed 2)

theorem renewal_plays : ((playOps anything lapsingSetup World.initial).bind fun w =>
    (sem.play (sharp 600) lapse.2 lapse.1.program (w, Own.idle 0)).bind fun x =>
      (sem.play (sharp 1000) renewal.2 renewal.1.program (x.2.1, Own.idle 0)).map fun y =>
        (x.1.outcome?, y.1.outcome?, [w, x.2.1, y.2.1].map fun w => w.db.users.map fun u =>
          (u.id, u.enabled))) =
      some (some (.ok ()), some (.ok ()), [[(1, 1)], [(1, 0)], [(1, 1)]]) := by decide +kernel

theorem user_of_map {w : World} {x : Int × Int}
    (h : w.db.users.map (fun u => (u.id, u.enabled)) = [x]) :
    ∃ u ∈ w.db.users, u.id = x.1 ∧ u.enabled = x.2 := by
  obtain ⟨u, hu, rfl⟩ : ∃ u ∈ w.db.users, (u.id, u.enabled) = x := List.mem_map.1 (by rw [h]; simp)
  exact ⟨u, hu, rfl, rfl⟩

/-- `enabled_state` says why the flag changed at 600, and why it changed back at 1000. -/
theorem enabled_state_renewed :
    ∃ (w w₁ w₂ : World) (l₁ l₂ : Own), ∃ u₁ ∈ w₁.db.users, ∃ u₂ ∈ w₂.db.users,
      u₁.id = 1 ∧ u₂.id = 1 ∧
    u₁.enabled = 0 ∧ u₂.enabled = 1 ∧ u₁.disabledReason ≠ none ∧
      firewallCalls l₁.trace = blockCalls (devicePorts 1 w.db) ∧
      MayReenable renewal.1 u₁ ∧ Users.expired u₂ 1000 = false ∧ limitReached u₂ = false ∧
        firewallCalls l₂.trace = unblockCalls (devicePorts 1 w₁.db) := by
  obtain ⟨w, hsetup, h⟩ := Option.bind_eq_some_iff.1 renewal_plays
  obtain ⟨⟨p, w₁, l₁⟩, hlapse, h⟩ := Option.bind_eq_some_iff.1 h
  obtain ⟨⟨q, w₂, l₂⟩, hrenewal, h⟩ := Option.map_eq_some_iff.1 h
  simp only [Prod.mk.injEq, List.map_cons, List.map_nil, List.cons.injEq, and_true] at h
  obtain ⟨hp, hq, hbefore, hlapsed, hrenewed⟩ := h
  obtain rfl := Prog.outcome?_eq_some.1 hp
  obtain rfl := Prog.outcome?_eq_some.1 hq
  obtain ⟨u, hu, hid, h1⟩ := user_of_map hbefore
  obtain ⟨u₁, hu₁, hid₁, h0₁⟩ := user_of_map hlapsed
  obtain ⟨u₂, hu₂, hid₂, h1₂⟩ := user_of_map hrenewed
  have hseq : Sequence (fun c {_} a s => anything c a s = true) World.initial w :=
    (course_of_playOps (P := fun _ => True) (fun _ _ => trivial) hsetup).sequence
  have hseq₁ : Sequence (fun c {_} a s => anything c a s = true) World.initial w₁ :=
    hseq.tail lapse.1 0 (.ok ()) l₁
      (Sem.Steps.mono (fun _ _ _ _ _ => rfl) (Sem.Steps.of_play hlapse))
  -- at 600
  obtain ⟨-, hflag⟩ := enabled_state _ _ (· = 600) (clocked_sharp 600) w w₁ hseq lapse.1 0 (.ok ())
      l₁ (Sem.Steps.of_play hlapse)
  obtain ⟨-, hblock⟩ := (hflag u hu u₁ hu₁ (hid₁.trans hid.symm)).off h1 h0₁
  -- at 1000
  obtain ⟨hmatches₁, hflag₁⟩ :=
    enabled_state _ _ (· = 1000) (clocked_sharp 1000) w₁ w₂ hseq₁ renewal.1 0 (.ok ()) l₂
      (Sem.Steps.of_play hrenewal)
  obtain ⟨hwhy, hunblock⟩ := (hflag₁ u₁ hu₁ u₂ hu₂ (hid₂.trans hid₁.symm)).on h0₁ h1₂
  have hreason : u₁.disabledReason ≠ none := fun hnone => by
    rw [(hmatches₁ u₁ hu₁).2 hnone] at h0₁
    cases h0₁
  rw [hid] at hblock
  rw [hid₁] at hunblock
  rcases hwhy with henable | ⟨hmay, t, rfl, hexp, hlim⟩
  · cases henable
  · exact ⟨w, w₁, w₂, l₁, l₂, u₁, hu₁, u₂, hu₂, hid₁, hid₂, h0₁, h1₂, hreason, hblock, hmay, hexp,
      hlim, hunblock⟩

end WebProxyPanel
