import WebProxyPanel.Counts
import WebProxyPanel.Global
/-!
# Slots and devices match one to one

The relation between slots and devices is stored twice, in `slots.device_id` and `devices.slot_id`,
with a status column beside it (db.py:23-68) and no constraint that ties the three together.
`Bijection` says what ties them; `reached_bijection` is that every order of steps of every
operation, with failures and stops anywhere, keeps it, and that no statement ever violates a
constraint.
-/

namespace WebProxyPanel
open Effects

structure Bijection (db : DB) : Prop where
  assigned : ∀ s ∈ db.slots, s.status = .assigned ↔ ∃! d, d ∈ db.devices ∧ d.slotId = s.id
  both : ∀ s ∈ db.slots, ∀ d ∈ db.devices, d.slotId = s.id ↔ s.deviceId = some d.id
  owned : ∀ s ∈ db.slots, s.status = .assigned ↔ ∃ d ∈ db.devices, s.deviceId = some d.id
  unassigned : ∀ s ∈ db.slots, s.status ≠ .assigned → s.deviceId = none ∧ ∀ d ∈ db.devices,
    d.slotId ≠ s.id
  pending : ∀ s ∈ db.slots, s.pendingSecret ≠ none → s.status = .dirty
  inactive : ∀ s ∈ db.slots, ¬ OnActive db s → s.status = .free
  total : (counts db).free + (counts db).assigned + (counts db).dirty =
    16 * (db.shards.filter fun sh => sh.active = 1).length
  devices : (counts db).assigned = db.devices.length
  constraints : db.Consistent

section Bijection
variable {db : DB}

/-- A slot with a device is assigned. -/
theorem Inv.assigned_of_device (h : Inv db) {s : Slot} (hs : s ∈ db.slots) {d : Device}
    (hd : d ∈ db.devices) (hid : d.slotId = s.id) : s.status = .assigned :=
  (h.active_of_device hd hs hid.symm).1

/-- The two columns say the same. -/
theorem Inv.slotId_iff (h : Inv db) {s : Slot} (hs : s ∈ db.slots) {d : Device}
    (hd : d ∈ db.devices) : d.slotId = s.id ↔ s.deviceId = some d.id := by
  constructor
  · intro hid
    obtain ⟨d', hd', hid', hdev⟩ := h.linked.assigned s hs (h.assigned_of_device hs hd hid)
    rw [hdev, Table.eq_of_key h.consistent.deviceSlot hd' hd (hid'.trans hid.symm)]
  · intro hdev
    have hst : s.status = .assigned := by
      by_contra hne
      rw [h.linked.unassigned s hs hne] at hdev
      simp at hdev
    obtain ⟨d', hd', hid', hdev'⟩ := h.linked.assigned s hs hst
    rw [hdev, Option.some.injEq] at hdev'
    rw [Table.eq_of_key h.consistent.deviceId hd hd' hdev']
    exact hid'

theorem Inv.bijection (h : Inv db) : Bijection db where
  assigned := by
    intro s hs
    constructor
    · intro hst
      obtain ⟨d, hd, hid, -⟩ := h.linked.assigned s hs hst
      exact ⟨d, ⟨hd, hid⟩, fun d' hd' => Table.eq_of_key h.consistent.deviceSlot hd'.1 hd
        (hd'.2.trans hid.symm)⟩
    · rintro ⟨d, ⟨hd, hid⟩, -⟩
      exact h.assigned_of_device hs hd hid
  both _ hs _ hd := h.slotId_iff hs hd
  owned := by
    intro s hs
    constructor
    · intro hst
      obtain ⟨d, hd, -, hdev⟩ := h.linked.assigned s hs hst
      exact ⟨d, hd, hdev⟩
    · rintro ⟨d, hd, hdev⟩
      exact h.assigned_of_device hs hd ((h.slotId_iff hs hd).2 hdev)
  unassigned s hs hst :=
    ⟨h.linked.unassigned s hs hst, fun _ hd hid => hst (h.assigned_of_device hs hd hid)⟩
  pending := h.pending
  inactive := h.inactive
  total := (counts_total h).trans (Nat.mul_comm _ _)
  devices := counts_assigned h
  constraints := h.consistent

end Bijection

/-! ## Constraints -/

section Integrity
variable {ok : Allow Action Choice State} {m : Mode} {w w' : World} {l l' : Own}

/-- Statements whose weakest precondition holds violate no constraint. -/
theorem Sql.wp.ne_integrity {α : Type} {D : String → Prop} {s : Sql α} {Q : α → DB → Prop}
    {db db' : DB} (h : s.wp D Q db) {inp inp' : Inputs} (hinp : ∀ v ∈ inp.tokens, D v) {e : Err}
    (he : s db inp = .error e db' inp') : e ≠ .integrity := by
  have := h inp hinp
  rwa [he] at this

/-- A guarded action never answers that a constraint failed. -/
theorem ne_integrity_of_guard {β : Type} {a : Action β} {r : Except Err β} (hg : guard m w l a)
    (hn : sem.Next ok (w, l) a r (w', l')) : r ≠ .error .integrity := by
  have hread : ∀ {γ : Type} {b : Action γ} {x : γ} {f : String → Err} {r : Except Err γ}
      {call : Call}, b.call? = some call →
      (∀ c, respond c b (w, l) = read c x f (w, l)) → (∀ msg, f msg ≠ .integrity) →
      sem.Next ok (w, l) b r (w', l') → r ≠ .error .integrity := by
    intro γ b x f r call hcall hb hf hn
    rcases next_read hcall hb hn with ⟨rfl, -, -⟩ | ⟨msg, done, -, rfl, -, -⟩
    · simp
    · simpa using hf msg
  have hplain : ∀ {b : Action Unit} {effect : World → World} {r : Except Err Unit} {call : Call},
      b.call? = some call →
      (∀ c, respond c b (w, l) = plain c effect (w, l)) → sem.Next ok (w, l) b r (w', l') →
      r ≠ .error .integrity := by
    intro b effect r call hcall hb hn
    rcases next_plain hcall hb hn with ⟨rfl, -, -⟩ | ⟨msg, done, -, rfl, -, -⟩ <;> simp
  cases a with
  | now =>
    obtain ⟨⟨t, rfl⟩, -, -⟩ := next_now hn
    simp
  | inTransaction =>
    obtain ⟨rfl, -, -⟩ := next_inTransaction hn
    simp
  | beginImmediate => rcases next_begin hn with ⟨rfl, -, -, -⟩ | ⟨msg, done, -, rfl, -, -⟩ <;> simp
  | commit =>
    obtain ⟨tx, htx, -⟩ := hg
    rcases next_commit htx hn with ⟨-, rfl, -, -⟩ | ⟨msg, gone, left, -, rfl, -⟩ <;> simp
  | rollback =>
    rcases next_rollback hn with ⟨tx, -, rfl, -, -⟩ | ⟨-, ⟨msg, rfl⟩, -, -⟩
    · simp
    · simp
  | sql s =>
    obtain ⟨tx, htx⟩ := next_sql_open hn
    have hw := (inTx_of_ownTx htx).2
    rcases next_sql htx hn with ⟨inp, db', -, hhex, -, -, ⟨a, -, rfl⟩ | ⟨e, he, rfl⟩⟩ |
        ⟨msg, gone, left, -, rfl, -⟩
    · simp
    · simpa using (hg.2 tx hw).ne_integrity (by simpa using hhex) he
    · simp
  | query f => exact hread rfl (fun _ => rfl) (by simp) hn
  | firewallCalls =>
    obtain ⟨rfl, -, -⟩ := next_firewallCalls hn
    simp
  | fwCall call => rcases next_fwCall hn with ⟨rfl, -, -⟩ | ⟨msg, done, -, rfl, -, -⟩ <;> simp
  | ctlSelect f => exact hread rfl (fun _ => rfl) (by simp) hn
  | ctlCurrent => exact hread rfl (fun _ => rfl) (by simp) hn
  | ctlReplace ports blocked =>
    rcases next_ctlReplace hn with ⟨-, rfl, -, -⟩ | ⟨msg, done, -, rfl, -, -⟩ <;> simp
  | readFile p => exact hread rfl (fun _ => rfl) (by simp) hn
  | writeFile p data => exact hplain rfl (fun _ => rfl) hn
  | removeFile p => exact hplain rfl (fun _ => rfl) hn
  | restartRelay => exact hplain rfl (fun _ => rfl) hn
  | restartShard k => exact hplain rfl (fun _ => rfl) hn
  | stopShard k => exact hplain rfl (fun _ => rfl) hn
  | enableShard k => exact hplain rfl (fun _ => rfl) hn
  | disableShard k => exact hplain rfl (fun _ => rfl) hn
  | relayCheck p q =>
    obtain ⟨-, ⟨msg, rfl, -⟩ | ⟨msg, -, rfl, -⟩ | ⟨msg, done, -, rfl, -⟩⟩ :=
      next_relayCheck hn <;> simp
  | waitHealthy ks =>
    obtain ⟨-, ⟨rfl, -⟩ | ⟨msg, -, rfl, -⟩ | ⟨msg, done, -, rfl, -⟩⟩ := next_waitHealthy hn <;> simp
  | lock => rcases next_lock hn with ⟨rfl, -, -, -⟩ | ⟨msg, done, -, rfl, -, -⟩ <;> simp
  | unlock =>
    obtain ⟨rfl, -, -⟩ := next_unlock hn
    simp

end Integrity

/-! ## Every order of steps -/

/-- In every committed state slots and devices match, whatever the order of the steps, and whichever
of them fail or are the last of their process; and no statement violates a constraint. -/
theorem reached_bijection (ok : Allow Action Choice State) (mayStop : Prop) (c : Procs)
    (h : Reached ok mayStop c) :
    Bijection c.shared.db ∧
      ∀ (i : Nat) (op : Op) (β : Type) (a : Action β) (k : Except Err β → P Unit)
        (r : Except Err β) (s : State),
        c.running i = some (op, .act a k) → sem.Next ok (c.shared, c.own i) a r s →
          r ≠ .error .integrity := by
  refine ⟨(reached_inv h).bijection, fun i op β a k r s hr hn => ?_⟩
  have hg := (good_of_reached kept_true trivial h).guard isRely_interferes hr
  exact ne_integrity_of_guard hg hn

theorem reached_bijection_installed :
    Bijection Procs.installed.shared.db ∧ Procs.installed.shared.db.devices.length = 1 :=
  ⟨(reached_bijection _ True Procs.installed reached_installed).1, by decide +kernel⟩

end WebProxyPanel
