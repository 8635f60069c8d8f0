import Mathlib.Data.List.Flatten
import WebProxyPanel.Invariant
import WebProxyPanel.Maintain
import WebProxyPanel.Users
/-!
# The database without its secrets

`DB.redact` blanks the columns `secret` and `pending_secret`. Two databases are `Alike` if nothing
else tells them apart, and both keep the constraints.

* `Public` — a read that shows nothing of the two columns.
* `Discreet` — a statement that neither reads nor writes them: it commutes with `redact` and brings
  no new secret in.
-/

namespace WebProxyPanel
open Table

/-! ## Redaction -/

/-- With `full`, it still shows whether a new secret is staged. -/
@[simps] def Slot.redact (full : Bool) (s : Slot) : Slot :=
  { s with secret := "", pendingSecret := if full then s.pendingSecret.map fun _ => "" else none }

@[simps] def DB.redact (full : Bool) (db : DB) : DB :=
  { db with slots := db.slots.map (Slot.redact full) }

def Slot.secrets (s : Slot) : List String := s.secret :: s.pendingSecret.toList

/-- What is in the two columns. -/
def DB.secrets (db : DB) : List String := db.slots.flatMap Slot.secrets

theorem DB.redact_redact (full : Bool) (db : DB) :
    (db.redact full).redact false = db.redact false := by
  simp [DB.redact, Slot.redact, Function.comp_def]

structure Alike (full : Bool) (D E : DB) : Prop where
  redact : D.redact full = E.redact full
  left : D.Consistent
  right : E.Consistent
  /-- A staged secret is nobody's secret. -/
  distinct : full = true → D.secrets.Nodup ∧ E.secrets.Nodup

section Alike
variable {full : Bool} {D E : DB} {α : Type}

theorem redact_column {g : Slot → α} (hg : ∀ s, g (s.redact full) = g s)
    (h : D.redact full = E.redact full) : D.slots.map g = E.slots.map g := by
  have hslots : (D.slots.map (Slot.redact full)).map g =
      (E.slots.map (Slot.redact full)).map g := by
    rw [← DB.redact_slots, h, DB.redact_slots]
  simpa [Function.comp_def, hg] using hslots

theorem redact_table {g : DB → α} (hg : ∀ db : DB, g (db.redact full) = g db)
    (h : D.redact full = E.redact full) : g D = g E := by
  rw [← hg D, h, hg]

/-- The constraints on the other columns hold of both or of neither. -/
theorem consistent_of_redact (h : D.redact full = E.redact full) (hD : D.Consistent)
    (hsecret : (E.slots.map (·.secret)).Nodup)
    (hpending : (E.slots.filterMap (·.pendingSecret)).Nodup) : E.Consistent := by
  have hshards : D.shards = E.shards := redact_table (g := DB.shards) (fun _ => rfl) h
  have husers : D.users = E.users := redact_table (g := DB.users) (fun _ => rfl) h
  have hdevices : D.devices = E.devices := redact_table (g := DB.devices) (fun _ => rfl) h
  have hevents : D.events = E.events := redact_table (g := DB.events) (fun _ => rfl) h
  have hsettings : D.settings = E.settings := redact_table (g := DB.settings) (fun _ => rfl) h
  have hids : D.slots.map (·.id) = E.slots.map (·.id) := redact_column (fun _ => rfl) h
  have hports : D.slots.map (·.port) = E.slots.map (·.port) := redact_column (fun _ => rfl) h
  have hkeys : (D.slots.map fun s => (s.shardId, s.idx)) = E.slots.map fun s =>
      (s.shardId, s.idx) :=
    redact_column (fun _ => rfl) h
  refine ⟨hshards ▸ hD.shardId, hshards ▸ hD.shardStats, hids ▸ hD.slotId, hports ▸ hD.slotPort,
    hsecret, hpending, hkeys ▸ hD.slotIdx,
    ?_, husers ▸ hD.userId, husers ▸ hD.userTg, hdevices ▸ hD.deviceId, hdevices ▸ hD.deviceSlot,
    ?_, ?_, hevents ▸ hD.eventId,
    hsettings ▸ hD.settingKey⟩
  · intro s hs
    have hcolumn : D.slots.map (·.shardId) = E.slots.map (·.shardId) :=
      redact_column (fun _ => rfl) h
    have hmem : s.shardId ∈ D.slots.map (·.shardId) := hcolumn ▸ List.mem_map_of_mem hs
    obtain ⟨s₀, hs₀, heq⟩ := List.mem_map.1 hmem
    rw [← heq, ← hshards]
    exact hD.slotShard s₀ hs₀
  · rw [← husers, ← hdevices]
    exact hD.deviceUser
  · rw [← hids, ← hdevices]
    exact hD.deviceSlotRef

theorem Alike.weaken (h : Alike full D E) : Alike false D E where
  redact := by rw [← D.redact_redact full, ← E.redact_redact full, h.redact]
  left := h.left
  right := h.right
  distinct hf := by simp at hf

theorem Alike.users (h : Alike full D E) : D.users = E.users :=
  redact_table (g := DB.users) (fun _ => rfl) h.redact
theorem Alike.devices (h : Alike full D E) : D.devices = E.devices :=
  redact_table (g := DB.devices) (fun _ => rfl) h.redact
theorem Alike.events (h : Alike full D E) : D.events = E.events :=
  redact_table (g := DB.events) (fun _ => rfl) h.redact

end Alike

/-! ## Reads -/

section Public
variable {full : Bool} {D E : DB} {α : Type}

end Public

/-! ## Statements -/

structure Discreet (full : Bool) (f : DB → DB) : Prop where
  redact : ∀ db, (f db).redact full = f (db.redact full)
  secrets : ∀ db, ((f db).slots.map fun s => (s.secret, s.pendingSecret)).Sublist
    (db.slots.map fun s => (s.secret, s.pendingSecret))

section Discreet
variable {full : Bool}

theorem Discreet.nodup {f : DB → DB} (hf : Discreet full f) {db : DB} (h : db.Consistent) :
    ((f db).slots.map (·.secret)).Nodup ∧ ((f db).slots.filterMap (·.pendingSecret)).Nodup := by
  have hsecret := (hf.secrets db).map Prod.fst
  have hpending := (hf.secrets db).filterMap Prod.snd
  simp only [List.map_map, List.filterMap_map, Function.comp_def] at hsecret hpending
  exact ⟨hsecret.nodup h.slotSecret, hpending.nodup h.slotPending⟩

end Discreet

end WebProxyPanel
