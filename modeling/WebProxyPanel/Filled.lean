import WebProxyPanel.Window
/-!
# Pools of every size are reached

Runs in which every call succeeds take an empty pool to any number of shards up to the limit, with
any number of its slots in use: one `maintain` with forced growth, then one `create_user` after the
other.

* `noFault` — runs in which every call succeeds; `maintain_noFault`.
* `Sql.Can`, `CanRun` — statements and programs that can return, with what they leave.
* `Populated`, `Filled` — pools with so many shards and devices, with any slots and without a dirty
  one.
-/

namespace WebProxyPanel
open Table Effects Users

/-! ## Runs without a failure -/

def noFault : Allow Action Choice State := fun c {_} _ _ => c.result = .ok

theorem oneFault_noFault : OneFault noFault := fun _ _ _ _ h hne => absurd h hne

theorem calm_next {β : Type} {a : Action β} {s s' : State} {r : Except Err β}
    (h : sem.Next noFault s a r s') (hcalm : Calm s.2.trace) : Calm s'.2.trace := by
  obtain ⟨w', l'⟩ := s'
  obtain ⟨c, l₁, hc, hr, rfl⟩ := next_respond h
  intro e hm
  rw [Own.note_trace, respond_trace hr] at hm
  rcases List.mem_append.1 hm with hm | hm
  · exact hcalm e hm
  · simp only [entries, Option.mem_toList, Option.map_eq_some_iff] at hm
    obtain ⟨call, -, rfl⟩ := hm
    exact hc

theorem calm_steps {α : Type} {q q' : P α} {s s' : State} (h : sem.Steps noFault q s q' s')
    (hcalm : Calm s.2.trace) : Calm s'.2.trace := by
  induction h with
  | refl => exact hcalm
  | step hn _ ih => exact ih (calm_next hn hcalm)

/-- A program that meets `eligible` comes to an end. -/
theorem complete_noFault {α : Type} {Q : Except Err α → World → Own → Prop} {q : P α} {w : World}
    {l : Own} (h : Safe sem noFault alone (eligible noFault) Q q w l) :
    ∃ out s, sem.Runs noFault q (w, l) out s := by
  refine Safe.complete isRely_alone (fun w l _ a hg => ?_) h
  obtain ⟨c, r, s', hc, hp⟩ := hg oneFault_noFault
  exact ⟨r, s'.1, s'.2, c, hc, hp⟩

/-- How a call ends. -/
def EndsWell (cfg : Config) (sizing : Sizing) (growShards : Option Int) (v : Pool) :
    Except Err Report → World → Own → Prop
  | .ok report, w, l => Maintained cfg sizing growShards v w l report
  | .error e, w, _ => e.isPoolError = true ∧ Exceeds growShards v.db ∧ w.pool = v

/-- A call alone, without a failure, comes to an end, and it raises only at the limit. -/
theorem maintain_noFault (cfg : Config) (sizing : Sizing) (growShards : Option Int) {w : World}
    (n : Nat) (hw : Resting w) (hlock : w.poolLock = false) :
    (∃ out s, sem.Runs noFault (maintain cfg sizing growShards) (w, Own.idle n) out s) ∧
      ∀ (out : Except Err Report) (w' : World) (l : Own),
        sem.Runs noFault (maintain cfg sizing growShards) (w, Own.idle n) out (w', l) →
        EndsWell cfg sizing growShards w.pool out w' l := by
  have hat : At none w.pool .checking w (Own.idle n) := ⟨rfl, hw.writer, rfl, rfl⟩
  have hsafe : Safe sem noFault alone (eligible noFault) _ _ _ _ :=
    alone_maintain cfg sizing growShards hw.world.1 (fun _ => hlock) hat
  refine ⟨complete_noFault hsafe, fun out w' l hrun => ?_⟩
  have hend := Safe.runs isRely_alone hsafe hrun
  rcases out with e | report
  · rcases hend oneFault_noFault with ⟨he, hexceeds, hat'⟩ | ⟨handled, u, hat'⟩
    · exact ⟨he, hexceeds, hat'.pool⟩
    · -- no call has failed
      have hcalm := phase_calm (calm_steps hrun (by simp [Own.idle, Calm]))
      have hphase : phase l.trace = .failed handled := hat'.phase
      rw [hphase] at hcalm
      simp [Phase.isFailed] at hcalm
  · exact hend

theorem Stages.not_exceeds {db db' : DB} (h : Inv db) {growShards : Option Int}
    {restart new : List Int} (hs : Stages growShards db restart new db') :
    ¬ Exceeds growShards db := by
  rintro ⟨hpos, hlimit⟩
  have hlength := hs.inv.layout.limit
  rw [hs.shards h, hs.new_eq] at hlength
  simp only [newIds, List.length_map, List.length_range] at hlength
  push_cast at hlength
  omega

/-! ## Statements that can return -/

namespace Sql
variable {α β : Type} {db : DB}

/-- Some inputs lead to a result that satisfies `Q`, and further ones are not looked at. -/
def Can (m : Sql α) (Q : α → DB → Prop) (db : DB) : Prop :=
  ∃ inp a db', (∀ v ∈ inp.tokens, isTokenHex v = true) ∧
    (∀ ext, m db (Inputs.append inp ext) = .ok a db' ext) ∧ Q a db'

theorem Can.pure {a : α} {Q : α → DB → Prop} (h : Q a db) : (Pure.pure a : Sql α).Can Q db :=
  ⟨.empty, a, db, by simp [Inputs.empty], fun _ => rfl, h⟩

theorem Can.query {f : DB → α} {Q : α → DB → Prop} (h : Q (f db) db) : (Sql.query f).Can Q db :=
  ⟨.empty, f db, db, by simp [Inputs.empty], fun _ => rfl, h⟩

theorem Can.orRaise {o : Option α} {e : Err} {a : α} {Q : α → DB → Prop} (ho : o = some a)
    (h : Q a db) : (Sql.orRaise o e).Can Q db := by
  subst ho
  exact Can.pure h

theorem Can.execute {f : DB → DB} {Q : Unit → DB → Prop} (hc : (f db).Consistent)
    (h : Q () (f db)) : (Sql.execute f).Can Q db :=
  ⟨.empty, (), f db, by simp [Inputs.empty], fun _ => execute_eq_ok.2 ⟨hc, rfl, rfl⟩, h⟩

theorem Can.now {Q : Int → DB → Prop} (h : ∀ t, Q t db) : Sql.now.Can Q db :=
  ⟨⟨[0], []⟩, 0, db, by simp, fun _ => rfl, h 0⟩

theorem Can.bind {m : Sql α} {f : α → Sql β} {Q : β → DB → Prop}
    (h : m.Can (fun a db' => (f a).Can Q db') db) : (m >>= f).Can Q db := by
  obtain ⟨inp, a, db₁, hhex, hm, inp₂, b, db₂, hhex₂, hf, hq⟩ := h
  refine ⟨inp.append inp₂, b, db₂, fun v hv => ?_, fun ext => ?_, hq⟩
  · rcases List.mem_append.1 hv with hv | hv
    · exact hhex v hv
    · exact hhex₂ v hv
  · have happend : (inp.append inp₂).append ext = inp.append (inp₂.append ext) := by
      simp [Inputs.append]
    rw [happend]
    exact bind_eq_ok.2 ⟨a, db₁, inp₂.append ext, hm _, hf ext⟩

end Sql

section Rows
variable {db : DB}

theorem can_logEvent (h : db.Consistent) {kind : String} {userId : Option Int} {details : String}
    {Q : Unit → DB → Prop} (hQ : ∀ ts, Q () (DB.addEvent ts kind userId details db)) :
    (logEvent kind userId details).Can Q db :=
  Sql.Can.bind (Sql.Can.now fun ts => Sql.Can.execute (h.addEvent ts kind userId details) (hQ ts))

/-- The first free slot, in the order of ids. -/
theorem exists_firstFree (hfree : ∃ s ∈ db.slots, s.status = .free ∧ OnActive db s) :
    ∃ s ∈ db.slots, firstFree db = some s ∧ s.status = .free ∧ OnActive db s := by
  obtain ⟨s, hs, hst, sh, hsh, hid, hact⟩ := hfree
  have hmem : (s, sh) ∈ orderBy (·.1.id) ((slotsWithShard db).filter fun x => x.1.status = .free &&
      x.2.active = 1) := by
    rw [mem_orderBy, List.mem_filter, slotsWithShard, mem_innerJoin]
    exact ⟨⟨hs, hsh, by simpa using hid⟩, by simp [hst, hact]⟩
  cases hrows : orderBy (·.1.id) ((slotsWithShard db).filter fun x => x.1.status = .free &&
    x.2.active = 1) with
  | nil =>
    rw [hrows] at hmem
    simp at hmem
  | cons x xs =>
    have hx : x ∈ orderBy (·.1.id) ((slotsWithShard db).filter fun x => x.1.status = .free &&
        x.2.active = 1) := by
      rw [hrows]
      exact List.mem_cons_self
    rw [mem_orderBy, List.mem_filter, slotsWithShard, mem_innerJoin] at hx
    obtain ⟨⟨h1, h2, h3⟩, h4⟩ := hx
    obtain ⟨h5, h6⟩ := Bool.and_eq_true_iff.1 h4
    exact ⟨x.1, h1, by rw [firstFree, hrows]; rfl, by simpa using h5, x.2, h2, by simpa using h3, by simpa using h6⟩

theorem can_takeFreeSlot (h : db.Consistent) {device : Option Int} {Q : Slot → DB → Prop}
    (hfree : ∃ s ∈ db.slots, s.status = .free ∧ OnActive db s)
    (hQ : ∀ s ∈ db.slots, s.status = .free → OnActive db s → ∀ row : Slot, row.id = s.id →
      Q row (setSlot s.id .assigned device db)) :
    (takeFreeSlot device).Can Q db := by
  obtain ⟨s, hs, hfirst, hst, hact⟩ := exists_firstFree hfree
  have hin : { s with status := .assigned, deviceId := device } ∈
      (setSlot s.id .assigned device db).slots :=
    mem_setSlot.2 ⟨s, hs, by rw [if_pos rfl]⟩
  obtain ⟨row, hrow⟩ := Option.isSome_iff_exists.1
    (List.find?_isSome (p := fun x : Slot => decide (x.id = s.id)) |>.2 ⟨_, hin, by simp⟩)
  refine Sql.Can.bind (Sql.Can.query (Sql.Can.bind (Sql.Can.orRaise hfirst (Sql.Can.bind ?_))))
  refine Sql.Can.execute (consistent_setSlot h s.id .assigned device)
    (Sql.Can.bind (Sql.Can.query (Sql.Can.orRaise hrow ?_)))
  exact hQ s hs hst hact row (by simpa using List.find?_some hrow)

/-- `_attach_device` without a name can return where a slot is free. -/
theorem can_attachDevice (h : Inv db) {u : User} (hu : u ∈ db.users) {createdBy : DeviceBy}
    {Q : Int × Int → DB → Prop} (hfree : ∃ s ∈ db.slots, s.status = .free ∧ OnActive db s)
    (hQ : ∀ d : Device, ∀ port, Inv (attach d db) → Q (d.id, port) (attach d db)) :
    (attachDevice u.id none createdBy).Can Q db := by
  refine Sql.Can.bind (can_takeFreeSlot h.consistent hfree fun s hs hst hact row hrow => ?_)
  refine Sql.Can.bind (Sql.Can.query
    (Sql.Can.bind (Sql.Can.pure
    (Sql.Can.bind (Sql.Can.now fun ts => Sql.Can.bind (Sql.Can.query ?_))))))
  generalize hd : (⟨nextRowid ((setSlot s.id .assigned none db).devices.map (·.id)), u.id, _,
    row.id, ts, createdBy⟩ : Device) = d
  have hds : d.slotId = s.id := by rw [← hd, ← hrow]
  have hdu : d.userId = u.id := by rw [← hd]
  have hdid : d.id = nextRowid (db.devices.map (·.id)) := by rw [← hd]; rfl
  have hid : nextRowid ((setSlot s.id .assigned none db).devices.map (·.id)) = d.id := by rw [← hd]
  have hstep := userStep_attach (M := fun _ _ => True) h hs hst hact hds hdid hu hdu
  have hc := consistent_addDeviceRow h hs (by rw [hst]; decide) hds hdid
      (by rw [hdu]; exact List.mem_map_of_mem hu) .assigned none
  have htwo : DB.updateSlot row.id (fun s => { s with deviceId := some d.id })
      (addDeviceRow d (setSlot s.id .assigned none db)) = attach d db := by
    unfold attach
    rw [hds, hrow]
    simp only [DB.updateSlot, addDeviceRow, setSlot, DB.mk.injEq, true_and, and_true]
    refine update_update ?_ _
    intro a ha
    exact ha
  refine Sql.Can.bind (Sql.Can.execute hc (Sql.Can.bind ?_))
  rw [hid]
  refine Sql.Can.execute (by rw [htwo]; exact hstep.inv.consistent) (Sql.Can.pure ?_)
  rw [htwo]
  exact hQ d row.port hstep.inv

/-- One device more, and no dirty slot. -/
structure Taken (db db' : DB) : Prop where
  shards : db'.shards = db.shards
  devices : db'.devices.length = db.devices.length + 1
  clean : (∀ s ∈ db.slots, s.status ≠ .dirty) → ∀ s ∈ db'.slots, s.status ≠ .dirty

theorem taken_attach {d : Device} : Taken db (attach d db) where
  shards := rfl
  devices := by
    show (db.devices ++ [d]).length = _
    simp
  clean hclean s' hs' := by
    obtain ⟨s, hs, rfl⟩ := mem_setSlot.1 hs'
    split
    · simp
    · exact hclean s hs

/-- The rows of `create_user`, for a user without a Telegram id and a device without a name. -/
theorem can_createUserRows (h : Inv db) {a : NewUser} (htg : a.tgId = none)
    (hname : a.deviceName = none) (name : String) (createdBy : CreatedBy) (reset : Reset)
    (timestamp : Int) (hfree : ∃ s ∈ db.slots, s.status = .free ∧ OnActive db s) :
    (createUserRows a name createdBy reset timestamp).Can (fun _ db' => Taken db db') db := by
  refine Sql.Can.bind (Sql.Can.query ?_)
  rw [htg]
  refine Sql.Can.bind (Sql.Can.query ?_)
  generalize hu : a.row (nextRowid (db.users.map (·.id))) name createdBy reset timestamp = u
  have hid : u.id = nextRowid (db.users.map (·.id)) := by rw [← hu]; rfl
  have htaken : tgIdTaken u.tgId none db = false := by
    have : u.tgId = a.tgId := by rw [← hu]; rfl
    rw [this, htg]
    rfl
  have hstep := userStep_addUser (M := fun _ _ => True) h hid htaken (.inr (by rw [← hu]; rfl))
  have hmem : u ∈ (addUser u db).users := List.mem_append_right _ (by simp)
  refine Sql.Can.bind (Sql.Can.execute hstep.inv.consistent (Sql.Can.bind ?_))
  rw [← hid, hname]
  refine can_attachDevice hstep.inv hmem hfree fun d port hinv => ?_
  have htook : Taken (addUser u db) (attach d (addUser u db)) := taken_attach
  refine Sql.Can.bind (can_logEvent hinv.consistent fun ts => Sql.Can.pure ?_)
  exact ⟨htook.shards, htook.devices, htook.clean⟩

/-- One device less, and a dirty slot. -/
structure Dropped (db db' : DB) : Prop where
  shards : db'.shards = db.shards
  devices : db'.devices.length + 1 = db.devices.length
  dirty : ∃ s ∈ db'.slots, s.status = .dirty

theorem can_device (h : Inv db) {d : Device} (hd : d ∈ db.devices) {Q : Device × Slot → DB → Prop}
    (hQ : ∀ s ∈ db.slots, d.slotId = s.id → Q (d, s) db) : (device d.id).Can Q db := by
  obtain ⟨s, hs, hid⟩ := List.mem_map.1 (h.consistent.deviceSlotRef d hd)
  have hrow : (d, s) ∈ devicesWithSlot db := mem_innerJoin.2 ⟨hd, hs, by simpa using hid⟩
  obtain ⟨x, hx⟩ := Option.isSome_iff_exists.1
    (List.find?_isSome (p := fun x : Device × Slot => decide (x.1.id = d.id)) |>.2
      ⟨_, hrow, by simp⟩)
  have hmem := mem_innerJoin.1 (List.mem_of_find?_eq_some hx)
  have hx1 : x.1 = d :=
    eq_of_key h.consistent.deviceId hmem.1 hd (by simpa using List.find?_some hx)
  refine Sql.Can.bind (Sql.Can.query (Sql.Can.orRaise hx ?_))
  have hslot : x.2.id = x.1.slotId := by simpa using hmem.2.2
  have hq := hQ x.2 hmem.2.1 (by rw [← hx1, hslot])
  rwa [← hx1] at hq

theorem can_deleteDeviceRows (h : Inv db) {d : Device} (hd : d ∈ db.devices) (by_ : String) :
    (deleteDeviceRows d.id by_).Can (fun _ db' => Dropped db db') db := by
  refine Sql.Can.bind (can_device h hd fun s hs hds => ?_)
  have hstep := userStep_deleteDevice h hd hs hds
  have hreleased : DB.updateSlot d.slotId (fun s => { s with status := .dirty, deviceId := none })
      db = releaseSlots [d.slotId] db := by
    simp only [DB.updateSlot, releaseSlots, List.mem_singleton]
    rfl
  refine Sql.Can.bind (Sql.Can.execute
    (by rw [hreleased]; exact consistent_releaseSlots h.consistent _) (Sql.Can.bind ?_))
  rw [hreleased]
  refine Sql.Can.execute hstep.inv.consistent ?_
  refine Sql.Can.bind (can_logEvent hstep.inv.consistent fun ts => Sql.Can.pure ⟨rfl, ?_, ?_⟩)
  · show (db.devices.filter fun e : Device => !decide (e.id = d.id)).length + 1 = _
    have hpick : db.devices.filter (fun e => decide (e.id = d.id)) = [d] :=
      filter_key_eq h.consistent.deviceId hd
    have hsum := List.length_eq_length_filter_add (l := db.devices) fun e : Device =>
        decide (e.id = d.id)
    rw [hpick, List.length_singleton] at hsum
    omega
  · refine ⟨Users.released s, ?_, rfl⟩
    show Users.released s ∈ update _ Users.released db.slots
    rw [mem_update]
    exact ⟨s, hs, by simp [hds]⟩

end Rows

/-! ## Programs that can return -/

/-- Some run without a failure returns, and leaves `Q`. -/
def CanRun {α : Type} (Q : α → World → Own → Prop) (q : P α) (w : World) (l : Own) : Prop :=
  ∃ a w' l', sem.Runs noFault q (w, l) (.ok a) (w', l') ∧ Q a w' l'

/-- Nothing is known but the database and the transaction. -/
def Anything : Known := fun _ _ _ => True

section Programs
variable {α β : Type} {db db' : DB} {tx : Option Tx} {w : World} {l : Own}

theorem CanRun.ret {a : α} {Q : α → World → Own → Prop} (h : Q a w l) : CanRun Q (.ret a) w l :=
  ⟨a, w, l, .refl, h⟩

theorem CanRun.bind {q : P α} {f : α → P β} {Q : β → World → Own → Prop}
    (h : CanRun (fun a => CanRun Q (f a)) q w l) : CanRun Q (q.bind f) w l := by
  obtain ⟨a, w₁, l₁, hrun, b, w₂, l₂, hrun₂, hq⟩ := h
  exact ⟨b, w₂, l₂, hrun.bind hrun₂, hq⟩

/-- Two programs in sequence. -/
theorem CanRun.seq {q : P α} {f : α → P β} {K : α → World → Own → Prop} {Q : β → World → Own → Prop}
    (h : CanRun K q w l) (hf : ∀ a w l, K a w l → CanRun Q (f a) w l) :
    CanRun Q (q.bind f) w l := by
  obtain ⟨a, w₁, l₁, hrun, hk⟩ := h
  exact CanRun.bind ⟨a, w₁, l₁, hrun, hf a w₁ l₁ hk⟩

theorem CanRun.tryCatch {q : P α} {f : Err → P α} {Q : α → World → Own → Prop}
    (h : CanRun Q q w l) : CanRun Q (q.tryCatch f) w l := by
  obtain ⟨a, w₁, l₁, hrun, hq⟩ := h
  exact ⟨a, w₁, l₁, hrun.tryCatch f, hq⟩

/-- One action that succeeds. -/
theorem CanRun.call {a : Action β} {Q : β → World → Own → Prop} (c : Choice) (hc : c.result = .ok)
    {b : β} {w' : World} {l' : Own} (h : respond c a (w, l) = some (.ok b, (w', l')))
    (hQ : ∀ es, Q b w' (l'.note es)) : CanRun Q (.call a) w l := by
  have hp : sem.perform c a (w, l) = some (.ok b, (w', l'.note (entries c a))) := by
    show (respond c a (w, l)).map _ = _
    rw [h]
    rfl
  exact ⟨b, w', l'.note (entries c a), .step (r := .ok b) ⟨c, hc, hp⟩ .refl, hQ _⟩

theorem Still.noteAny (h : Still Anything db tx w l) (es : List Entry) :
    Still Anything db tx w (l.note es) :=
  ⟨h.inTx, h.writer, h.db, trivial⟩

theorem canRun_inTransaction (h : Still Anything db tx w l) :
    CanRun (fun b w l => b = tx.isSome ∧ Still Anything db tx w l) (.call .inTransaction) w l :=
  CanRun.call .ok rfl (b := l.inTx) rfl fun es => ⟨h.inTx, h.noteAny es⟩

/-- Statements that can return, in the transaction around them. -/
theorem canRun_sql {m : Sql α} {t : Tx} {X : α → DB → Prop} (h : Still Anything db (some t) w l)
    (hm : m.Can X t.copy) :
    CanRun (fun a w l => ∃ t', X a t'.copy ∧ Still Anything db (some t') w l) (sql m) w l := by
  obtain ⟨inp, a, db', hhex, hrun, hx⟩ := hm
  have hempty : Inputs.append inp .empty = inp := by simp [Inputs.append, Inputs.empty]
  have hrun := hrun .empty
  rw [hempty] at hrun
  have hall : inp.tokens.all isTokenHex = true := by simpa using hhex
  have hrespond : respond (.inputs inp) (.sql m) (w, l) =
      some (.ok a, ({ w with writer := some ⟨db', t.issued, t.failed, t.drawn ++ inp.tokens⟩ },
        l)) := by
    simp only [respond, h.own, runSql, hall, hrun, Inputs.empty]
    rfl
  exact CanRun.call (.inputs inp) rfl hrespond fun es => ⟨_, hx, (h.setTx _).noteAny es⟩

theorem canRun_fwCall {t : Tx} (call : FwCall) (h : Still Anything db (some t) w l) :
    CanRun (fun _ w l => ∃ t', t'.copy = t.copy ∧ Still Anything db (some t') w l)
      (.call (.fwCall call)) w l := by
  refine CanRun.call .ok rfl (b := ()) rfl fun es =>
    ⟨⟨t.copy, t.issued ++ [call], t.failed || false, t.drawn⟩, rfl, h.inTx, ?_, h.db, trivial⟩
  rw [World.fwCall_writer, h.writer]
  rfl

theorem canRun_block {t : Tx} (ports : List Int) (h : Still Anything db (some t) w l) :
    CanRun (fun _ w l => ∃ t', t'.copy = t.copy ∧ Still Anything db (some t') w l)
      (block ports) w l := by
  unfold block
  split
  · exact CanRun.ret ⟨t, rfl, h⟩
  · exact canRun_fwCall _ h

theorem canRun_unblock {t : Tx} (ports : List Int) (h : Still Anything db (some t) w l) :
    CanRun (fun _ w l => ∃ t', t'.copy = t.copy ∧ Still Anything db (some t') w l)
      (unblock ports) w l := by
  unfold unblock
  split
  · exact CanRun.ret ⟨t, rfl, h⟩
  · exact canRun_fwCall _ h

theorem canRun_transaction {X : α → DB → Prop} {body : P α} (h : Still Anything db none w l)
    (hbody : ∀ w l t, t.copy = db → Still Anything db (some t) w l →
      CanRun (fun a w l => ∃ t', X a t'.copy ∧ Still Anything db (some t') w l) body w l) :
    CanRun (fun a w l => ∃ db', X a db' ∧ Still Anything db' none w l) (transaction body) w l := by
  unfold transaction
  simp only [Prog.bind_eq]
  refine CanRun.seq (canRun_inTransaction h) ?_
  rintro _ w₁ l₁ ⟨rfl, h₁⟩
  simp only [Option.isSome_none, Bool.false_eq_true, if_false]
  have hbegin : respond .ok .beginImmediate (w₁, l₁) =
      some (.ok (), (w₁.begin_, { l₁ with inTx := true })) := by
    simp [respond, h₁.writer]
  refine CanRun.seq (K := fun _ => Still Anything db (some ⟨db, [], false, []⟩))
    (CanRun.call .ok rfl hbegin fun es => ?_) fun _ w₂ l₂ h₂ => ?_
  · exact ⟨rfl, by rw [World.begin__writer, h₁.db], h₁.db, trivial⟩
  refine CanRun.seq (CanRun.tryCatch (hbody w₂ l₂ _ rfl h₂)) ?_
  rintro a w₃ l₃ ⟨t, hx, h₃⟩
  refine CanRun.seq (K := fun _ => Still Anything t.copy none) (CanRun.tryCatch ?_) fun _ w₄ l₄
    h₄ => CanRun.ret ⟨t.copy, hx, h₄⟩
  have hcommit : respond .ok .commit (w₃, l₃) =
      some (.ok (), (w₃.commit t, { l₃ with inTx := false })) := by
    simp [respond, h₃.own]
  exact CanRun.call .ok rfl hcommit fun es => ⟨rfl, rfl, rfl, trivial⟩

theorem canRun_change {X : α → DB → Prop} {body : P α} (h : Still Anything db none w l)
    (hbody : ∀ w l t, t.copy = db → Still Anything db (some t) w l →
      CanRun (fun a w l => ∃ t', X a t'.copy ∧ Still Anything db (some t') w l) body w l) :
    CanRun (fun a w l => ∃ db', X a db' ∧ Still Anything db' none w l) (change body) w l := by
  unfold change
  simp only [Prog.bind_eq]
  refine CanRun.seq (canRun_inTransaction h) ?_
  rintro _ w₁ l₁ ⟨rfl, h₁⟩
  simp only [Option.isSome_none, Bool.false_eq_true, if_false]
  refine CanRun.seq (K := fun _ => Still Anything db none)
    (CanRun.call .ok rfl (b := l₁.firewallCalls) rfl h₁.noteAny) fun _ w₂ l₂ h₂ => ?_
  exact CanRun.tryCatch (canRun_transaction h₂ hbody)

/-- `create_user` while a slot is free. -/
theorem canRun_createUser (hinv : Inv db) {a : NewUser} {x : String × CreatedBy × Reset}
    (hcheck : a.check = .ok x) (htg : a.tgId = none) (hname : a.deviceName = none)
    (hfree : ∃ s ∈ db.slots, s.status = .free ∧ OnActive db s) (h : Still Anything db none w l) :
    CanRun (fun _ w l => ∃ db', Taken db db' ∧ Still Anything db' none w l)
      (Op.createUser a).program w l := by
  refine CanRun.seq (K := fun _ w l => ∃ db', Taken db db' ∧ Still Anything db' none w l) ?_ fun _ w
    l h => CanRun.ret h
  unfold createUser
  rw [hcheck]
  refine CanRun.seq (K := fun y w l => y = x ∧ Still Anything db none w l) (CanRun.ret ⟨rfl, h⟩) ?_
  rintro ⟨name, createdBy, reset⟩ w₀ l₀ ⟨rfl, h₀⟩
  refine CanRun.seq (K := fun _ => Still Anything db none)
    (CanRun.call (.time 0) rfl (b := 0) rfl h₀.noteAny) fun t w₁ l₁ h₁ => ?_
  refine canRun_change (X := fun _ db' => Taken db db') h₁ fun w₂ l₂ tx htx h₂ => ?_
  have hcan := can_createUserRows hinv htg hname name createdBy reset t hfree
  rw [← htx] at hcan
  refine CanRun.seq (canRun_sql h₂ hcan) ?_
  rintro ⟨userId, deviceId, port⟩ w₃ l₃ ⟨t₃, htaken, h₃⟩
  refine CanRun.seq (canRun_unblock [port] h₃) ?_
  rintro _ w₄ l₄ ⟨t₄, hcopy, h₄⟩
  exact CanRun.ret ⟨t₄, by rw [hcopy, ← htx]; exact htaken, h₄⟩

/-- `delete_device` of a device that is there. -/
theorem canRun_deleteDevice (hinv : Inv db) {d : Device} (hd : d ∈ db.devices) (by_ : String)
    (h : Still Anything db none w l) :
    CanRun (fun _ w l => ∃ db', Dropped db db' ∧ Still Anything db' none w l)
      (Op.deleteDevice d.id by_).program w l := by
  refine canRun_change (X := fun _ db' => Dropped db db') h fun w₁ l₁ tx htx h₁ => ?_
  have hcan := can_deleteDeviceRows hinv hd by_
  rw [← htx] at hcan
  refine CanRun.seq (canRun_sql h₁ hcan) ?_
  rintro port w₂ l₂ ⟨t₂, hdropped, h₂⟩
  obtain ⟨_, w₃, l₃, hrun, t₃, hcopy, h₃⟩ := canRun_block [port] h₂
  exact ⟨(), w₃, l₃, hrun, t₃, by rw [hcopy, ← htx]; exact hdropped, h₃⟩

end Programs

/-! ## The lock -/

theorem locked_steps {ok : Allow Action Choice State} {α : Type} {q q' : P α} {s s' : State}
    (h : sem.Steps ok q s q' s') (hlock : s.2.locked = s.1.poolLock) :
    s'.2.locked = s'.1.poolLock := by
  induction h with
  | refl => exact hlock
  | @step _ _ _ _ _ s₁ _ _ hn _ ih =>
    obtain ⟨w₁, l₁⟩ := s₁
    obtain ⟨c, l₂, -, hr, rfl⟩ := next_respond hn
    have hlocked : l₂.locked = w₁.poolLock := respond_poolLock hr hlock
    exact ih hlocked

theorem unlocked_runs {ok : Allow Action Choice State} {op : Op} {w w' : World} {n : Nat}
    {out : Except Err Unit} {l : Own} (h : Resting w) (hlock : w.poolLock = false)
    (hrun : sem.Runs ok op.program (w, Own.idle n) out (w', l)) : w'.poolLock = false := by
  have hend : Ready ok w' l := by
    have hpost := Safe.runs isRely_interferes (@safe_program ok true w _ (h.ready n) op) hrun
    cases out with
    | ok a => exact hpost
    | error e => exact hpost.1
  have := locked_steps hrun (show (Own.idle n).locked = w.poolLock from hlock.symm)
  exact this.symm.trans hend.locked

/-! ## Pools -/

/-- A pool that runs without a failure lead to, with so many shards and devices. -/
structure Populated (shards devices : Nat) (w : World) : Prop where
  reached : Sequence noFault World.initial w
  unlocked : w.poolLock = false
  shards : (counts w.db).shards = shards
  devices : w.db.devices.length = devices

/-- One without a dirty slot. -/
structure Filled (shards devices : Nat) (w : World) : Prop extends Populated shards devices w where
  clean : ∀ s ∈ w.db.slots, s.status ≠ .dirty

section Pools
variable {n k : Nat} {w : World}

theorem Populated.resting (h : Populated n k w) : Resting w := h.reached.resting resting_initial

theorem Populated.still (h : Populated n k w) (m : Nat) : Still Anything w.db none w (Own.idle m) :=
  ⟨rfl, h.resting.writer, rfl, trivial⟩

/-- What the devices leave. -/
theorem Populated.clean_eq (h : Populated n k w) :
    WebProxyPanel.clean w.db + k = n * shardSize := by
  have hfree := free_dirty h.resting.world.1
  rw [h.shards, h.devices] at hfree
  exact hfree

/-- Some slot is free as long as there are fewer devices than slots. -/
theorem Filled.exists_free (h : Filled n k w) (hk : k < n * shardSize) :
    ∃ s ∈ w.db.slots, s.status = .free ∧ OnActive w.db s := by
  have hinv := h.resting.world.1
  have hclean := h.clean_eq
  have hdirty : (counts w.db).dirty = 0 := by
    change countStatus .dirty w.db = 0
    rw [countStatus_eq hinv, List.countP_eq_zero]
    intro s hs hst
    exact h.clean s hs (by simpa using (Bool.and_eq_true_iff.1 hst).2)
  have hpos : 0 < countStatus .free w.db := by
    change 0 < (counts w.db).free
    unfold WebProxyPanel.clean at hclean
    omega
  rw [countStatus_eq hinv, List.countP_pos_iff] at hpos
  obtain ⟨s, hs, hst⟩ := hpos
  obtain ⟨hact, hst⟩ := Bool.and_eq_true_iff.1 hst
  exact ⟨s, hs, by simpa using hst, by simpa using hact⟩

/-- One user more. -/
theorem Filled.createUser (h : Filled n k w) (hk : k < n * shardSize) :
    ∃ w', Filled n (k + 1) w' := by
  obtain ⟨x, hx⟩ : ∃ x, sampleUser.check = .ok x := ⟨("user", .panel, .never), by decide +kernel⟩
  obtain ⟨a, w', l, hrun, db', htaken, hstill⟩ :=
    canRun_createUser h.resting.world.1 hx rfl rfl (h.exists_free hk) (h.still 0)
  refine ⟨w', ⟨h.reached.tail _ 0 _ l hrun, unlocked_runs h.resting h.unlocked hrun, ?_, ?_⟩, ?_⟩
  · rw [hstill.db, ← h.shards]
    show (db'.shards.filter _).length = _
    rw [htaken.shards]
    rfl
  · rw [hstill.db, htaken.devices, h.devices]
  · rw [hstill.db]
    exact htaken.clean h.clean

/-- One device less. -/
theorem Filled.deleteDevice (h : Filled n (k + 1) w) :
    ∃ w', Populated n k w' ∧ ∃ s ∈ w'.db.slots, s.status = .dirty := by
  obtain ⟨d, hd⟩ := List.exists_mem_of_length_pos (l := w.db.devices) (by rw [h.devices]; omega)
  obtain ⟨a, w', l, hrun, db', hdropped, hstill⟩ :=
    canRun_deleteDevice h.resting.world.1 hd "panel" (h.still 0)
  refine ⟨w', ⟨h.reached.tail _ 0 _ l hrun, unlocked_runs h.resting h.unlocked hrun, ?_, ?_⟩, ?_⟩
  · rw [hstill.db, ← h.shards]
    show (db'.shards.filter _).length = _
    rw [hdropped.shards]
    rfl
  · rw [hstill.db]
    have := hdropped.devices
    rw [h.devices] at this
    omega
  · rw [hstill.db]
    exact hdropped.dirty

/-- A forced growth of the empty pool. -/
theorem exists_filled_zero (hn : n ≤ maxShards) : ∃ w, Filled n 0 w := by
  have hinv := resting_initial.world.1
  obtain ⟨⟨out, ⟨w, l⟩, hrun⟩, hends⟩ := maintain_noFault sampleConfig sampleSizing (some (n : Int))
      0 resting_initial rfl
  have hzero : (counts World.initial.db).shards = 0 := rfl
  rcases out with e | report
  · obtain ⟨-, ⟨-, hlimit⟩, -⟩ := hends _ w l hrun
    have hlimit : (maxShards : Int) < (counts World.initial.db).shards + (n : Int) := hlimit
    rw [hzero] at hlimit
    omega
  · have hprogram : sem.Runs noFault
        (Op.maintain sampleConfig sampleSizing (some (n : Int))).program (World.initial, Own.idle 0)
        (.ok ()) (w, l) :=
      hrun.bind .refl
    obtain ⟨restart, new, db', events, hs, hdb, -⟩ :=
      Maintained.stages (v := World.initial.pool) hinv (hends _ w l hrun)
    have hs : Stages (some (n : Int)) World.initial.db restart new db' := hs
    obtain ⟨hshards, hdirty, -⟩ := counts_committed hinv hs
    have hcounts : counts w.db = counts (committed db') := by
      rw [hdb]
      rfl
    refine ⟨w, ⟨(Sequence.refl _).tail _ 0 _ l hprogram,
      unlocked_runs resting_initial rfl hprogram, ?_, ?_⟩, ?_⟩
    · rw [hcounts, hshards, hs.new_eq, hzero]
      simp [newIds, wanted]
    · have hdevices : (committed db').devices = World.initial.db.devices := (hs.staged hinv).devices
      rw [hdb]
      exact congrArg List.length hdevices
    · refine no_dirty (resting_runs resting_initial hprogram).1.world.1 ?_
      rw [hcounts]
      exact hdirty

/-- Any number of shards up to the limit, and of devices up to the number of their slots. -/
theorem exists_filled (hn : n ≤ maxShards) (hk : k ≤ n * shardSize) : ∃ w, Filled n k w := by
  induction k with
  | zero => exact exists_filled_zero hn
  | succ k ih =>
    obtain ⟨w, hw⟩ := ih (by omega)
    exact hw.createUser (by omega)

/-- The same with a dirty slot. -/
theorem exists_dirty (hn : n ≤ maxShards) (hk : k < n * shardSize) :
    ∃ w, Populated n k w ∧ ∃ s ∈ w.db.slots, s.status = .dirty := by
  obtain ⟨w, hw⟩ := exists_filled (k := k + 1) hn hk
  exact hw.deleteDevice

end Pools

end WebProxyPanel
