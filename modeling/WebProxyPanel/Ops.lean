import WebProxyPanel.Lib.Interleave
import WebProxyPanel.UsersSafe
import WebProxyPanel.MaintainSafe
/-!
# The system: processes that run operations

| here | there |
| --- | --- |
| `Op` | what panel, bot, worker and boot unit call: users.py:97-311, `maintain` (pool.py:320-343), `wppctl sync` |
| `system` | any number of such processes over one `World` |

`safe_program` puts the operations together: each one keeps its guard and ends ready for the next.
-/

namespace WebProxyPanel
open Effects

inductive Op where
  | createUser (a : Users.NewUser)
  | addDevice (userId : Int) (createdBy : String) (name : Option String)
  | deleteDevice (deviceId : Int) (by_ : String)
  | rotateDevice (deviceId : Int)
  | renameDevice (deviceId : Int) (name : String)
  | disableUser (userId : Int) (reason : String)
  | enableUser (userId : Int)
  | setExpiry (userId : Int) (expiresAt : Option Int) (enableNow : Bool)
  | extend (userId days : Int) (enableNow : Bool)
  | setTrafficLimit (userId : Int) (limitBytes : Option Int) (reset : String) (enableNow : Bool)
  | updateProfile (userId : Int) (a : Users.ProfileUpdate)
  | deleteUser (userId : Int)
  | maintain (cfg : Config) (sizing : Sizing) (growShards : Option Int)
  /-- `wppctl sync` by itself, as the boot unit runs it -/
  | sync

namespace Op

/-- The operation, its result dropped. -/
def program : Op → P Unit
  | createUser a => (Users.createUser a).bind fun _ => .ret ()
  | addDevice userId createdBy name => (Users.addDevice userId createdBy name).bind fun _ => .ret ()
  | deleteDevice deviceId by_ => Users.deleteDevice deviceId by_
  | rotateDevice deviceId => Users.rotateDevice deviceId
  | renameDevice deviceId name => Users.renameDevice deviceId name
  | disableUser userId reason => (Users.disableUser userId reason).bind fun _ => .ret ()
  | enableUser userId => (Users.enableUser userId).bind fun _ => .ret ()
  | setExpiry userId expiresAt enableNow => Users.setExpiry userId expiresAt enableNow
  | extend userId days enableNow => (Users.extend userId days enableNow).bind fun _ => .ret ()
  | setTrafficLimit userId limitBytes reset enableNow =>
    Users.setTrafficLimit userId limitBytes reset enableNow
  | updateProfile userId a => Users.updateProfile userId a
  | deleteUser userId => Users.deleteUser userId
  | maintain cfg sizing growShards =>
    (WebProxyPanel.maintain cfg sizing growShards).bind fun _ => .ret ()
  | sync => syncFirewall

/-- A function of users.py. -/
def isUser : Op → Bool
  | maintain _ _ _ | sync => false
  | _ => true

/-- The devices, by id and user, whose slots it takes. -/
def moves : Op → Int → Int → Prop
  | deleteDevice deviceId _ | rotateDevice deviceId => fun i _ => i = deviceId
  | deleteUser userId => fun _ u => u = userId
  | _ => fun _ _ => False

/-- It may unblock ports. -/
def opens : Op → Bool
  | createUser _ | addDevice _ _ _ | rotateDevice _ | enableUser _ | setExpiry _ _ _ | extend _ _ _
  | setTrafficLimit _ _ _ _ => true
  | _ => false

def mode (solo : Bool) (op : Op) : Mode := ⟨solo, op.moves, op.opens⟩

end Op

/-- Interference in runs of one process, or of many. -/
def interferes (solo : Bool) (l : Own) (w w' : World) : Prop := (solo = true → w' = w) ∧ Rely l w w'

def promises (solo : Bool) (op : Op) : Guard Action World Own :=
  fun w l {_} a => guard (op.mode solo) w l a

section Programs
variable {ok : Allow Action Choice State} {solo : Bool} {w : World} {l : Own}

/-- How an operation ends. -/
def OpPost (ok : Allow Action Choice State) (solo : Bool) (op : Op) (D₀ : DB) :
    Except Err Unit → World → Own → Prop :=
  post (fun _ => Ready ok) fun _ w l => Ready ok w l ∧ (op.isUser = true → solo = true → w.db = D₀)

theorem isRely_interferes : IsRely (interferes solo) :=
  isRely_others ⟨solo, fun _ _ => False, false⟩

theorem Ready.interferes (h : Ready ok w l) {w' : World} (ho : interferes solo l w w') :
    Ready ok w' l :=
  Ready.others (m := ⟨solo, fun _ _ => False, false⟩) h ho

/-- A user operation, its result dropped or not. -/
theorem safe_drop {α : Type} {op : Op} {p : P α}
    (h : Safe sem ok (others (op.mode solo)) (guard (op.mode solo))
      (UserPost ok (op.mode solo) w.db) p w l) :
    Safe sem ok (interferes solo) (promises solo op) (OpPost ok solo op w.db)
      (p.bind fun _ => .ret ()) w l := by
  have h' : Safe sem ok (interferes solo) (promises solo op)
      (post (fun _ => Ready ok) fun e => OpPost ok solo op w.db (.error e)) p w l := by
    refine h.mono fun out w₁ l₁ hq => ?_
    cases out with
    | ok a => exact hq
    | error e => exact ⟨hq.1, fun _ => hq.2⟩
  exact Safe.seq isRely_interferes h' fun _ w₁ l₁ hr w₂ ho => hr.interferes ho

theorem safe_user {op : Op} {p : P Unit}
    (h : Safe sem ok (others (op.mode solo)) (guard (op.mode solo))
      (UserPost ok (op.mode solo) w.db) p w l) :
    Safe sem ok (interferes solo) (promises solo op) (OpPost ok solo op w.db) p w l := by
  refine h.mono fun out w₁ l₁ hq => ?_
  cases out with
  | ok a => exact hq
  | error e => exact ⟨hq.1, fun _ => hq.2⟩

/-- Every operation keeps its guard, and ends ready for the next one. -/
theorem safe_program (h : Ready ok w l) (op : Op) :
    Safe sem ok (interferes solo) (promises solo op) (OpPost ok solo op w.db) op.program w l := by
  cases op with
  | createUser a => exact safe_drop (Users.safe_createUser h rfl a)
  | addDevice userId createdBy name =>
    exact safe_drop (Users.safe_addDevice h rfl userId createdBy name)
  | deleteDevice deviceId by_ => exact safe_user (Users.safe_deleteDevice h deviceId by_ rfl)
  | rotateDevice deviceId => exact safe_user (Users.safe_rotateDevice h rfl deviceId rfl)
  | renameDevice deviceId name => exact safe_user (Users.safe_renameDevice h deviceId name)
  | disableUser userId reason => exact safe_drop (Users.safe_disableUser h userId reason)
  | enableUser userId => exact safe_drop (Users.safe_enableUser h rfl userId)
  | setExpiry userId expiresAt enableNow =>
    exact safe_user (Users.safe_setExpiry h rfl userId expiresAt enableNow)
  | extend userId days enableNow => exact safe_drop (Users.safe_extend h rfl userId days enableNow)
  | setTrafficLimit userId limitBytes reset enableNow =>
    exact safe_user (Users.safe_setTrafficLimit h rfl userId limitBytes reset enableNow)
  | updateProfile userId a => exact safe_user (Users.safe_updateProfile h userId a)
  | deleteUser userId => exact safe_user (Users.safe_deleteUser h userId rfl)
  | maintain cfg sizing growShards =>
    have hm : Safe sem ok (interferes solo) (promises solo (.maintain cfg sizing growShards))
        (post (fun _ => Ready ok) fun _ => Ready ok)
        (WebProxyPanel.maintain cfg sizing growShards) w l :=
      safe_maintain (m := Op.mode solo (.maintain cfg sizing growShards)) cfg sizing growShards h
    refine Safe.seq isRely_interferes (K := fun _ => Ready ok) (hm.mono fun out w₁ l₁ hq => ?_)
      fun _ w₁ l₁ hr w₂ ho => hr.interferes ho
    cases out with
    | ok a => exact hq
    | error e => exact ⟨hq, fun hu => by simp [Op.isUser] at hu⟩
  | sync =>
    have hown : ownTx (w, l) = none := by simp [ownTx, h.inTx]
    have hs : Safe sem ok (interferes solo) (promises solo .sync)
        (SyncPost ok (Op.mode solo .sync) w l) syncFirewall w l :=
      safe_sync (m := Op.mode solo .sync) h.world (by simp [h.inTx]) (by rw [hown]; simp)
    refine hs.mono fun out w₁ l₁ hq => ?_
    cases out with
    | ok a =>
      obtain ⟨hs, es, rfl⟩ := hq
      exact ⟨h.inTx, h.locked, fun _ => rfl, hs.ok h.world⟩
    | error e =>
      obtain ⟨hs, ⟨es, rfl⟩, -⟩ := hq
      exact ⟨⟨h.inTx, h.locked, h.clean, hs.ok h.world⟩, fun hu => by simp [Op.isUser] at hu⟩

end Programs

/-- Processes that share a world. -/
def system : System Op Action Err Choice World Own where
  sem := sem
  program := Op.program
  stop := crash

/-- Processes by number. -/
abbrev Procs := Configuration Nat Op Action Err World Own

end WebProxyPanel
