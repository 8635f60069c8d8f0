import WebProxyPanel.Global
/-!
# Issued links stay valid on disk

A link holds a host, a profile name and a secret. It works as long as `profiles.json` and the env
file of its shard carry the secret that the database has for the slot, and the device stays on its
slot.
-/

namespace WebProxyPanel
open Effects

/-- Relay and shard know the slot's secret from `profiles.json` and from the shard's env file. -/
def LinkOnDisk (files : Path → Option Content) (s : Slot) : Prop :=
  (∃ ps, files .profiles = some (.profiles ps) ∧ ListsProfile ps s s.secret) ∧
    ∃ text, files (.shardEnv s.shardId) = some (.text text) ∧ ListsPort text s s.secret

/-- The operations that take a device's slot away. -/
def Op.TakesSlot (op : Op) (d : Device) : Prop :=
  op = .rotateDevice d.id ∨ (∃ by_, op = .deleteDevice d.id by_) ∨ op = .deleteUser d.userId

theorem Op.moves_iff (op : Op) (d : Device) : op.moves d.id d.userId ↔ op.TakesSlot d := by
  cases op <;> simp [Op.moves, Op.TakesSlot, eq_comm]

theorem FilesOk.link {db : DB} {files : Path → Option Content} (h : FilesOk db files) {s : Slot}
    (hs : s ∈ db.slots) (ha : OnActive db s) (hst : s.status ≠ .dirty) : LinkOnDisk files s :=
  ⟨h .profiles s hs ha hst, h (.shardEnv s.shardId) s hs rfl ha hst⟩

theorem KeepsLink.refl {db : DB} {d : Device} (hd : d ∈ db.devices) : KeepsLink db db d :=
  KeepsLink.frame (.refl db) (.of_mem hd)

section Links
variable {ok : Allow Action Choice State} {m : Mode} {w w' : World} {l l' : Own}

/-- A device keeps its link through every step but the COMMIT of an operation that takes its slot.
-/
theorem Does.keepsLink (h : Does ok m w l w' l') {d : Device} (hd : d ∈ w.db.devices) :
    m.moves d.id d.userId ∨ KeepsLink w.db w'.db d := by
  cases h with
  | commit tx es htx hc _ => exact hc.links d hd
  | nothing es => exact .inr (.refl hd)
  | begin_ es _ _ => exact .inr (.refl hd)
  | statements tx tx' es _ _ _ _ => exact .inr (.refl hd)
  | rollback tx es _ => exact .inr (.refl hd)
  | fwCall call fails done es _ _ => exact .inr (.refl hd)
  | replace ports blocked l₁ es _ _ _ => exact .inr (.refl hd)
  | file p data es _ _ => exact .inr (.refl hd)
  | units u es _ => exact .inr (.refl hd)
  | lock es _ _ => exact .inr (.refl hd)
  | unlock es _ _ => exact .inr (.refl hd)

end Links

end WebProxyPanel
