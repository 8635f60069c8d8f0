import Mathlib.Data.List.Basic
import Mathlib.Tactic.Simps.Basic
/-!
# Files on a disk that may lose power

What processes see of the files is in memory and reaches the disk at `fsync`. A loss of power may
keep or drop each change of a directory since the directory was last synced, name by name, and
leaves anything at all in a file that was not synced after its last write. A rename is one change of
the new name.

* `Disk.may` — what a name may hold after a loss of power, what it holds now first.
* `PowerLoss` — what may be found after it.
-/

namespace Files

/-- What a file holds, and its permission bits. -/
structure File where
  data : List UInt8
  mode : Nat
deriving DecidableEq, Repr

structure Inode where
  file : File
  /-- The disk holds what the processes see. -/
  synced : Bool
deriving DecidableEq, Repr

structure Disk (Name : Type) where
  entries : Name → Option Nat
  /-- The entries that a loss of power may bring back. -/
  past : Name → List (Option Nat)
  inodes : Nat → Inode
  /-- The number of the next new file. -/
  next : Nat

namespace Disk
variable {Name : Type}

/-- A new entry of a name. -/
@[simps] def setEntry [DecidableEq Name] (n : Name) (e : Option Nat) (d : Disk Name) : Disk Name :=
  { d with
    entries := fun m => if m = n then e else d.entries m
    past := fun m => if m = n then d.entries n :: d.past n else d.past m }

@[simps] def setInode (i : Nat) (node : Inode) (d : Disk Name) : Disk Name :=
  { d with inodes := fun j => if j = i then node else d.inodes j }

/-- `open(O_CREAT | O_EXCL)` -/
def create [DecidableEq Name] (n : Name) (mode : Nat) (d : Disk Name) : Disk Name :=
  { (d.setInode d.next ⟨⟨[], mode⟩, false⟩).setEntry n (some d.next) with next := d.next + 1 }

/-- `write`, of what the system took -/
def append (i : Nat) (bytes : List UInt8) (d : Disk Name) : Disk Name :=
  if bytes = [] then d else
    d.setInode i ⟨{ (d.inodes i).file with data := (d.inodes i).file.data ++ bytes }, false⟩

/-- `fchmod` -/
def chmod (i : Nat) (mode : Nat) (d : Disk Name) : Disk Name :=
  d.setInode i ⟨{ (d.inodes i).file with mode := mode }, false⟩

/-- `fsync` of a file -/
def sync (i : Nat) (d : Disk Name) : Disk Name := d.setInode i ⟨(d.inodes i).file, true⟩

/-- `rename` -/
def rename [DecidableEq Name] (a b : Name) (d : Disk Name) : Disk Name :=
  (d.setEntry a none).setEntry b (d.entries a)

/-- `unlink` -/
def unlink [DecidableEq Name] (n : Name) (d : Disk Name) : Disk Name := d.setEntry n none

/-- `fsync` of a directory -/
@[simps] def syncDir (here : Name → Bool) (d : Disk Name) : Disk Name :=
  { d with past := fun n => if here n then [] else d.past n }

/-- What a process that opens the name finds. -/
def read (n : Name) (d : Disk Name) : Option File := (d.entries n).map fun i => (d.inodes i).file

/-- What a name may hold after a loss of power if all its files are synced; what it holds now first.
-/
def may (n : Name) (d : Disk Name) : List (Option File) :=
  (d.entries n :: d.past n).map (Option.map fun i => (d.inodes i).file)

/-- The name refers, or a loss of power may make it refer, to the file. -/
def Refers (d : Disk Name) (n : Name) (i : Nat) : Prop := some i ∈ d.entries n :: d.past n

/-- What may be found after a loss of power. -/
structure PowerLoss (d d' : Disk Name) : Prop where
  entries : ∀ n, d'.entries n ∈ d.entries n :: d.past n
  past : ∀ n, d'.past n = []
  file : ∀ i, (d.inodes i).synced = true → (d'.inodes i).file = (d.inodes i).file
  synced : ∀ i, (d'.inodes i).synced = true
  next : d'.next = d.next

/-- A loss of power that undoes as much as it can. -/
def undo (d : Disk Name) : Disk Name where
  entries n := (d.past n).getLast?.getD (d.entries n)
  past _ := []
  inodes i := ⟨if (d.inodes i).synced then (d.inodes i).file else ⟨[], 0⟩, true⟩
  next := d.next

theorem powerLoss_undo (d : Disk Name) : PowerLoss d d.undo where
  entries n := by
    change (d.past n).getLast?.getD (d.entries n) ∈ _
    cases h : (d.past n).getLast? with
    | none => exact List.mem_cons_self
    | some e => exact List.mem_cons_of_mem _ (List.mem_of_getLast? h)
  past _ := rfl
  file i hi := if_pos hi
  synced _ := rfl
  next := rfl

/-! ## What the operations leave alone -/

section
variable {d d' : Disk Name} {a b m n : Name} {i j : Nat}

theorem read_mem_may (n : Name) (d : Disk Name) : d.read n ∈ d.may n := List.mem_cons_self

theorem mem_may {v : Option File} :
    v ∈ d.may n ↔ ∃ e ∈ d.entries n :: d.past n, v = e.map fun i => (d.inodes i).file := by
  rw [may, List.mem_map]
  exact exists_congr fun e => and_congr_right fun _ => eq_comm

theorem read_of_may (h : d'.may n = d.may n) : d'.read n = d.read n := List.head_eq_of_cons_eq h

/-- Names that refer to the same files with the same contents. -/
theorem may_congr (he : d'.entries n = d.entries n) (hp : d'.past n = d.past n)
    (hi : ∀ i, d.Refers n i → (d'.inodes i).file = (d.inodes i).file) : d'.may n = d.may n := by
  rw [may, may, he, hp]
  refine List.map_congr_left fun e hm => ?_
  cases e with
  | none => rfl
  | some i => rw [Option.map_some, Option.map_some, hi i hm]

@[simp] theorem setInode_self (node : Inode) : (d.setInode i node).inodes i = node := if_pos rfl

theorem setInode_ne (node : Inode) (h : j ≠ i) : (d.setInode i node).inodes j = d.inodes j :=
  if_neg h

theorem may_syncDir_subset (here : Name → Bool) (n : Name) : (d.syncDir here).may n ⊆ d.may n := by
  intro v hv
  obtain ⟨e, he, rfl⟩ := mem_may.1 hv
  refine mem_may.2 ⟨e, ?_, rfl⟩
  rw [syncDir_entries, syncDir_past] at he
  split at he
  · exact List.mem_cons.2 (Or.inl (List.mem_singleton.1 he))
  · exact he

/-- A synced directory holds on the disk what the processes see. -/
theorem may_syncDir {here : Name → Bool} (h : here n = true) :
    (d.syncDir here).may n = [d.read n] := by
  simp [may, read, h]

theorem refers_syncDir {here : Name → Bool} (h : (d.syncDir here).Refers m i) : d.Refers m i := by
  unfold Refers at h ⊢
  rw [syncDir_entries, syncDir_past] at h
  split at h
  · exact List.mem_cons.2 (Or.inl (List.mem_singleton.1 h))
  · exact h

/-- A write leaves the name and its past alone, and every file but one. -/
theorem append_entries (bytes : List UInt8) :
    (d.append i bytes).entries = d.entries ∧ (d.append i bytes).past = d.past ∧
    (d.append i bytes).next = d.next ∧ ∀ j, j ≠ i → (d.append i bytes).inodes j = d.inodes j := by
  unfold append
  split
  · exact ⟨rfl, rfl, rfl, fun _ _ => rfl⟩
  · exact ⟨rfl, rfl, rfl, fun j hj => setInode_ne _ hj⟩

theorem append_file (bytes : List UInt8) :
    ((d.append i bytes).inodes i).file =
      ⟨(d.inodes i).file.data ++ bytes, (d.inodes i).file.mode⟩ := by
  unfold append
  split
  · rename_i h
    rw [h, List.append_nil]
  · rw [setInode_self]

/-- If all files of a name are synced, a loss of power leaves one of the things that the name may
hold. -/
theorem PowerLoss.may (h : PowerLoss d d') (hs : ∀ i, d.Refers n i → (d.inodes i).synced = true) :
    ∃ v ∈ d.may n, d'.may n = [v] := by
  refine ⟨(d'.entries n).map fun i => (d.inodes i).file, mem_may.2 ⟨_, h.entries n, rfl⟩, ?_⟩
  rw [Disk.may, h.past n, List.map_singleton]
  cases he : d'.entries n with
  | none => rfl
  | some i =>
    have hr : d.Refers n i := by
      have := h.entries n
      rwa [he] at this
    rw [Option.map_some, Option.map_some, h.file i (hs i hr)]

theorem PowerLoss.refers (h : PowerLoss d d') (hr : d'.Refers n i) : d.Refers n i := by
  unfold Refers at hr
  rw [h.past n, List.mem_singleton] at hr
  have := h.entries n
  rwa [← hr] at this

variable [DecidableEq Name]

theorem may_setEntry_ne (e : Option Nat) (h : m ≠ n) : (d.setEntry n e).may m = d.may m :=
  may_congr (if_neg h) (if_neg h) fun _ _ => rfl

@[simp] theorem may_setEntry_self (e : Option Nat) :
    (d.setEntry n e).may n = (e.map fun i => (d.inodes i).file) :: d.may n := by
  simp [may]

theorem refers_setEntry {e : Option Nat} (h : (d.setEntry n e).Refers m i) :
    d.Refers m i ∨ (m = n ∧ e = some i) := by
  unfold Refers at h
  rw [setEntry_entries, setEntry_past] at h
  by_cases hm : m = n
  · subst hm
    rw [if_pos rfl, if_pos rfl, List.mem_cons] at h
    exact h.elim (fun h => Or.inr ⟨rfl, h.symm⟩) Or.inl
  · rw [if_neg hm, if_neg hm] at h
    exact Or.inl h

theorem refers_create {mode : Nat} (h : (d.create n mode).Refers m i) :
    d.Refers m i ∨ (m = n ∧ i = d.next) := by
  have : ((d.setInode d.next ⟨⟨[], mode⟩, false⟩).setEntry n (some d.next)).Refers m i := h
  exact (refers_setEntry this).imp id fun h => ⟨h.1, (Option.some.inj h.2).symm⟩

theorem refers_rename (h : (d.rename a b).Refers m i) :
    d.Refers m i ∨ (m = b ∧ d.entries a = some i) := by
  rcases refers_setEntry h with h | h
  · exact Or.inl ((refers_setEntry h).resolve_right fun h => nomatch h.2)
  · exact Or.inr h

theorem refers_unlink (h : (d.unlink n).Refers m i) : d.Refers m i :=
  (refers_setEntry h).resolve_right fun h => nomatch h.2

@[simp] theorem rename_inodes : (d.rename a b).inodes = d.inodes := rfl
@[simp] theorem unlink_inodes : (d.unlink n).inodes = d.inodes := rfl
@[simp] theorem rename_next : (d.rename a b).next = d.next := rfl
@[simp] theorem unlink_next : (d.unlink n).next = d.next := rfl
@[simp] theorem create_next {mode : Nat} : (d.create n mode).next = d.next + 1 := rfl

theorem rename_entries_src (h : a ≠ b) : (d.rename a b).entries a = none := by
  simp [rename, h]

theorem rename_entries_ne (ha : m ≠ a) (hb : m ≠ b) : (d.rename a b).entries m = d.entries m := by
  simp [rename, ha, hb]

theorem may_rename (h : a ≠ b) : (d.rename a b).may b = d.read a :: d.may b := by
  rw [rename, may_setEntry_self, may_setEntry_ne none h.symm]
  rfl

theorem may_rename_ne (ha : m ≠ a) (hb : m ≠ b) : (d.rename a b).may m = d.may m := by
  rw [rename, may_setEntry_ne _ hb, may_setEntry_ne _ ha]

theorem may_unlink : (d.unlink n).may n = none :: d.may n := may_setEntry_self none

theorem may_unlink_ne (h : m ≠ n) : (d.unlink n).may m = d.may m := may_setEntry_ne none h

theorem may_create {mode : Nat} (h : m ≠ n) (hm : ¬ d.Refers m d.next) :
    (d.create n mode).may m = d.may m := by
  refine may_congr (if_neg h) (if_neg h) fun i hi => ?_
  have hne : i ≠ d.next := fun hin => hm (hin ▸ hi)
  simp [create, hne]

end
end Disk
end Files
