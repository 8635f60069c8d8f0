import WebProxyPanel.Effect
import WebProxyPanel.Sequential
import WebProxyPanel.Links
import WebProxyPanel.Outer
/-!
# Operations one after the other, seen by the users

What one operation of a sequential run does to users and devices, whichever of its calls fail: a
user operation that returns follows its rule of `Effect`, one that raises changes nothing, and
`maintain` and `sync` leave both tables alone.

* `Resting` — the state between two operations.
* `People` — what the statements of `maintain` keep.
* `resting_runs`, `runs_effect`, `runs_people` — the three cases of a step; `runs_moved` puts them
  together.
* `Course` — a sequential run of operations of some kind.
-/

namespace WebProxyPanel
open Table Effects

/-! ## Between two operations -/

/-- No transaction is open. `WorldOk` holds in every reachable state (`reached_mutex`). -/
structure Resting (w : World) : Prop where
  world : WorldOk w
  writer : w.writer = none

theorem resting_initial : Resting World.initial := ⟨worldOk_initial, rfl⟩

section Resting
variable {ok : Allow Action Choice State} {op : Op} {w w' : World} {l : Own} {n : Nat}

theorem Resting.ready (h : Resting w) (n : Nat) : Ready ok w (Own.idle n) :=
  ⟨rfl, rfl, fun _ => rfl, h.world⟩

theorem Resting.mutex (h : Resting w) (n : Nat) : Mutex w (only (Own.idle n)) where
  world := h.world
  tx := fun _ _ _ _ => rfl
  writer := by simp [h.writer, only, Own.idle]
  lock := fun _ _ _ _ => rfl
  held := by simp [only, Own.idle]

/-- An operation, run any part of the way. -/
theorem mutex_steps (h : Resting w) {q : P Unit}
    (hs : sem.Steps ok op.program (w, Own.idle n) q (w', l)) : Mutex w' (only l) := by
  refine Safe.steps_keep isRely_interferes (J := fun s => Mutex s.1 (only s.2)) ?_
    (@safe_program ok true w _ (h.ready n) op) hs (h.mutex n)
  rintro ⟨w₁, l₁⟩ ⟨w₂, l₂⟩ β a r hj hg hn
  have := Mutex.does (i := ()) hj (does_of_next hg hn)
  rwa [update_only] at this

theorem Mutex.writer_none (h : Mutex w (only l)) (hin : l.inTx = false) : w.writer = none := by
  by_contra hne
  obtain ⟨_, hj⟩ := h.writer.1 hne
  change l.inTx = true at hj
  rw [hin] at hj
  simp at hj

/-- An operation ends at rest, and a user operation that raises has changed no table. -/
theorem resting_runs (h : Resting w) {out : Except Err Unit}
    (hs : sem.Runs ok op.program (w, Own.idle n) out (w', l)) :
    Resting w' ∧ (op.isUser = true → ∀ e, out = .error e → w'.db = w.db) := by
  have hpost := Safe.runs isRely_interferes (@safe_program ok true w _ (h.ready n) op) hs
  have hend : Ready ok w' l := by
    cases out with
    | ok a => exact hpost
    | error e => exact hpost.1
  refine ⟨⟨hend.world, (mutex_steps h hs).writer_none hend.inTx⟩, ?_⟩
  rintro hu e rfl
  exact hpost.2 hu rfl

/-- It stops on the way. -/
theorem resting_crash (h : Resting w) {q : P Unit} {s : State}
    (hs : sem.Steps ok op.program (w, Own.idle n) q s) : Resting (crash s).1 := by
  obtain ⟨w', l⟩ := s
  have hmutex := mutex_steps h hs
  unfold crash
  have hlock : ∀ w, Resting w → Resting ((if l.locked then World.setLock false else id) w) := by
    intro w h
    split
    · exact ⟨h.world, h.writer⟩
    · exact h
  refine hlock _ ?_
  dsimp only
  split
  · exact ⟨hmutex.world, rfl⟩
  · rename_i hin
    exact ⟨hmutex.world, hmutex.writer_none (eq_false_of_ne_true hin)⟩

theorem Sequence.resting (h : Resting w) (hs : Sequence ok w w') : Resting w' := by
  induction hs with
  | refl => exact h
  | tail op n out l _ hr ih => exact (resting_runs ih hr).1

/-- A user operation that returns. -/
theorem runs_effect {T : Int → Prop} (hT : Clocked T ok) (hu : op.isUser = true)
    (hs : sem.Runs ok op.program (w, Own.idle n) (.ok ()) (w', l)) :
    ∃ ids, Leaves T op w.db ids w'.db (firewallCalls l.trace) := by
  rw [op.program_eq_ids] at hs
  have hsafe : Safe sem ok alone free
      (post (fun _ w' l => ∃ ids, Left T op w.db [] ids w' l) Whatever)
      (op.ids.bind fun _ => .ret ()) w (Own.idle n) := by
    have heffect := Op.effect (w := w) (l := Own.idle n) hT hu rfl
    refine Safe.seq isRely_alone (K := Left T op w.db []) (heffect.mono ?_) ?_
    · rintro (e | ids) w₁ l₁ h
      · trivial
      · exact h
    · rintro ids w₁ l₁ h _ rfl
      exact ⟨ids, h⟩
  obtain ⟨ids, -, calls, hleft, hcalls⟩ := Safe.runs isRely_alone hsafe hs
  rw [List.nil_append] at hcalls
  exact ⟨ids, hcalls ▸ hleft⟩

end Resting

/-! ## Statements that leave users and devices alone -/

/-- The same users and devices; new rows of the journal are about nobody. -/
structure People (D db : DB) : Prop where
  users : db.users = D.users
  devices : db.devices = D.devices
  events : ∀ e ∈ db.events, e ∈ D.events ∨ e.userId = none

theorem People.refl (db : DB) : People db db := ⟨rfl, rfl, fun _ he => .inl he⟩

theorem People.trans {D db db' : DB} (h : People D db) (h' : People db db') : People D db' :=
  ⟨h'.users.trans h.users, h'.devices.trans h.devices, fun e he =>
    (h'.events e he).elim (h.events e) .inr⟩

namespace Sql
variable {α β : Type}

/-- Whether they succeed or raise. -/
def Keeps (m : Sql α) : Prop := ∀ db inp, match m db inp with
  | .ok _ db' _ | .error _ db' _ => People db db'
  | .starved => True

theorem Keeps.ok {m : Sql α} (h : m.Keeps) {db db' : DB} {inp inp' : Inputs} {a : α}
    (hm : m db inp = .ok a db' inp') : People db db' := by
  have := h db inp
  rw [hm] at this
  exact this

theorem Keeps.error {m : Sql α} (h : m.Keeps) {db db' : DB} {inp inp' : Inputs} {e : Err}
    (hm : m db inp = .error e db' inp') : People db db' := by
  have := h db inp
  rw [hm] at this
  exact this

theorem Keeps.pure (a : α) : (Pure.pure a : Sql α).Keeps := fun db _ => .refl db

theorem Keeps.query (f : DB → α) : (Sql.query f).Keeps := fun db _ => .refl db

theorem Keeps.raise (e : Err) : (Sql.raise e : Sql α).Keeps := fun db _ => .refl db

theorem Keeps.execute {f : DB → DB} (h : ∀ db, People db (f db)) : (Sql.execute f).Keeps := by
  intro db inp
  unfold Sql.execute
  by_cases hc : (f db).Consistent
  · rw [if_pos hc]
    exact h db
  · rw [if_neg hc]
    exact .refl db

theorem Keeps.now : Sql.now.Keeps := by
  rintro db ⟨_ | ⟨t, ts⟩, vs⟩
  · trivial
  · exact .refl db

theorem Keeps.bind {m : Sql α} {f : α → Sql β} (hm : m.Keeps) (hf : ∀ a, (f a).Keeps) :
    (m >>= f).Keeps := by
  intro db inp
  rw [bind_run]
  cases h : m db inp with
  | ok a db₁ inp₁ =>
    have h₁ := hm.ok h
    dsimp only
    cases h' : f a db₁ inp₁ with
    | ok b db₂ inp₂ => exact h₁.trans ((hf a).ok h')
    | error e db₂ inp₂ => exact h₁.trans ((hf a).error h')
    | starved => trivial
  | error e db₁ inp₁ => exact hm.error h
  | starved => trivial

theorem Keeps.forM {ι : Type} {f : ι → Sql PUnit} (hf : ∀ x, (f x).Keeps) (xs : List ι) :
    (xs.forM f).Keeps := by
  induction xs with
  | nil => exact Keeps.pure _
  | cons x xs ih => exact Keeps.bind (hf x) fun _ => ih

theorem Keeps.foldlM {ι : Type} {f : β → ι → Sql β} (hf : ∀ b x, (f b x).Keeps) (xs : List ι)
    (b : β) : (xs.foldlM f b).Keeps := by
  induction xs generalizing b with
  | nil => exact Keeps.pure b
  | cons x xs ih =>
    rw [List.foldlM_cons]
    exact Keeps.bind (hf b x) fun b' => ih b'

theorem Keeps.newSecret : newSecret.Keeps := by
  intro db inp
  cases h : WebProxyPanel.newSecret db inp with
  | ok v db' inp' =>
    rw [newSecret_db h]
    exact .refl db
  | error e db' inp' => exact absurd h firstUnused_ne_error
  | starved => trivial

end Sql

theorem keeps_updateSlot (id : Int) (f : Slot → Slot) : (Sql.execute (DB.updateSlot id f)).Keeps :=
  Sql.Keeps.execute fun _ => ⟨rfl, rfl, fun _ he => .inl he⟩

theorem keeps_abortStaged : abortStaged.Keeps := by
  refine Sql.Keeps.bind (Sql.Keeps.execute fun _ => ?_) fun _ => ?_
  · exact ⟨rfl, rfl, fun _ he => .inl he⟩
  · refine Sql.Keeps.bind (Sql.Keeps.execute fun _ => ?_) fun _ => Sql.Keeps.execute fun _ => ?_
    · exact ⟨rfl, rfl, fun _ he => .inl he⟩
    · exact ⟨rfl, rfl, fun _ he => .inl he⟩

theorem keeps_stageDirty : stageDirty.Keeps := by
  refine Sql.Keeps.bind (Sql.Keeps.query _) fun rows => Sql.Keeps.foldlM (fun shards row => ?_) _ _
  refine Sql.Keeps.bind ?_ fun _ => Sql.Keeps.pure _
  unfold stageSecret
  split
  · exact Sql.Keeps.bind Sql.Keeps.newSecret fun _ => keeps_updateSlot _ _
  · exact Sql.Keeps.pure _

theorem keeps_createShards (count : Int) : (createShards count).Keeps := by
  unfold createShards
  split
  · exact Sql.Keeps.pure _
  refine Sql.Keeps.bind (Sql.Keeps.query _) fun first => ?_
  split
  · exact Sql.Keeps.raise _
  refine Sql.Keeps.bind Sql.Keeps.now fun timestamp =>
    Sql.Keeps.bind (Sql.Keeps.forM (fun k => ?_) _) fun _ => Sql.Keeps.pure _
  refine Sql.Keeps.bind (Sql.Keeps.execute fun _ => ⟨rfl, rfl, fun _ he => .inl he⟩) fun _ =>
    Sql.Keeps.forM (fun idx => ?_) _
  exact Sql.Keeps.bind Sql.Keeps.newSecret fun _ => Sql.Keeps.execute fun _ =>
    ⟨rfl, rfl, fun _ he => .inl he⟩

theorem keeps_stageRows (growShards : Option Int) : (stageRows growShards).Keeps := by
  refine Sql.Keeps.bind keeps_abortStaged fun _ => Sql.Keeps.bind keeps_stageDirty fun restart =>
    Sql.Keeps.bind ?_ fun grow => ?_
  · cases growShards with
    | some n => exact Sql.Keeps.pure n
    | none => exact Sql.Keeps.query _
  · exact Sql.Keeps.bind (keeps_createShards grow) fun new => Sql.Keeps.pure _

theorem keeps_commitStaged : commitStaged.Keeps := by
  refine Sql.Keeps.bind (Sql.Keeps.query _) fun rows =>
    Sql.Keeps.bind (Sql.Keeps.forM (fun row => ?_) _) fun _ => ?_
  · exact keeps_updateSlot _ _
  · exact Sql.Keeps.execute fun _ => ⟨rfl, rfl, fun _ he => .inl he⟩

theorem keeps_logEvent (kind details : String) : (logEvent kind none details).Keeps := by
  refine Sql.Keeps.bind Sql.Keeps.now fun ts => Sql.Keeps.execute fun db =>
    ⟨rfl, rfl, fun e he => ?_⟩
  rw [DB.addEvent, List.mem_append, List.mem_singleton] at he
  exact he.imp_right fun he => by rw [he]

/-! ## Programs that run only such statements -/

/-- The statements, if any, leave users and devices alone. -/
def Action.keepsPeople {β : Type} : Action β → Prop
  | .sql m => m.Keeps
  | _ => True

section Programs

theorem keeps_inner {β : Type} (a : Action β) (h : a.inner) : a.keepsPeople := by
  cases a <;> trivial

theorem keeps_outer {β : Type} (a : Action β) (h : a.outer) : a.keepsPeople := by
  cases a <;> trivial

theorem only_sql {α : Type} {m : Sql α} (h : m.Keeps) : (sql m).Only Action.keepsPeople :=
  Prog.Only.call h

theorem only_applySteps (a : ApplyArgs) (targets : List (Path × Content)) :
    (applySteps a targets).Only Action.keepsPeople := by
  refine Prog.Only.bind (Prog.Only.forM (fun _ => Prog.Only.call trivial) _) fun _ =>
    Prog.Only.bind (Prog.Only.runIf ?_) fun _ => ?_
  · refine Prog.Only.bind (only_transaction keeps_inner (only_syncFirewall keeps_inner)) fun _ => ?_
    exact Prog.Only.forM (fun _ => Prog.Only.call trivial) _
  refine Prog.Only.bind (Prog.Only.forM (fun _ => Prog.Only.call trivial) _) fun _ => ?_
  refine Prog.Only.bind (Prog.Only.call trivial) fun _ =>
    Prog.Only.bind (Prog.Only.call trivial) fun healthy => ?_
  exact Prog.Only.runIf trivial

theorem only_rollBack (a : ApplyArgs) (previous : List (Path × Option Content)) (error : Err) :
    (rollBack a previous error).Only Action.keepsPeople := by
  refine Prog.Only.bind (only_bestEffort ((outer_restore previous).mono keeps_outer)) fun _ => ?_
  refine Prog.Only.bind (Prog.Only.forM (fun shard => only_bestEffort ?_) _) fun _ => ?_
  · exact Prog.Only.bind (Prog.Only.call trivial) fun _ => Prog.Only.call trivial
  refine Prog.Only.bind (only_transaction keeps_inner (only_sql keeps_abortStaged)) fun _ =>
    Prog.Only.bind (only_bestEffort ?_) fun _ => ?_
  · exact (outer_restarts _).mono keeps_outer
  refine Prog.Only.bind
    (Prog.Only.runIf (only_bestEffort
    (only_transaction keeps_inner (only_syncFirewall keeps_inner)))) fun _ => ?_
  cases error.isPoolError <;> trivial

theorem only_apply (cfg : Config) (sizing : Sizing) (restartShards newShards : List Int) :
    (apply cfg sizing restartShards newShards).Only Action.keepsPeople := by
  refine Prog.Only.bind ((outer_renderAll _).mono keeps_outer) fun rendered => ?_
  refine Prog.Only.bind ((outer_checkCandidates rendered).mono keeps_outer) fun x => ?_
  dsimp only
  split
  · exact Prog.Only.bind (only_transaction keeps_inner (only_sql keeps_abortStaged)) fun _ =>
      trivial
  refine Prog.Only.bind ((outer_readFiles _).mono keeps_outer) fun previous =>
    Prog.Only.bind ?_ fun _ => ?_
  · exact Prog.Only.tryCatch (only_applySteps _ _) fun e => only_rollBack _ previous e
  · exact only_transaction keeps_inner
      (only_sql (Sql.Keeps.bind keeps_commitStaged fun _ => keeps_logEvent _ _))

theorem only_maintain (cfg : Config) (sizing : Sizing) (growShards : Option Int) :
    (maintain cfg sizing growShards).Only Action.keepsPeople := by
  refine Prog.Only.bind (Prog.Only.call trivial) fun _ =>
    Prog.Only.tryFinally ?_ (Prog.Only.call trivial)
  refine Prog.Only.bind (only_transaction keeps_inner (only_sql (keeps_stageRows growShards)))
    fun x => ?_
  dsimp only
  split
  · trivial
  exact Prog.Only.bind (Prog.Only.call trivial) fun _ =>
    Prog.Only.bind (only_apply cfg sizing _ _) fun _ => trivial

theorem only_pool {op : Op} (hu : op.isUser = false) : op.program.Only Action.keepsPeople := by
  cases op with
  | maintain cfg sizing growShards =>
    exact Prog.Only.bind (only_maintain cfg sizing growShards) fun _ => trivial
  | sync => exact only_syncFirewall keeps_inner
  | _ => simp [Op.isUser] at hu

end Programs

/-! ## Runs of maintain and sync -/

/-- The committed database and the transaction that may still commit. -/
def PeopleInv (D : DB) (s : State) : Prop :=
  People D s.1.db ∧ ∀ tx, s.1.writer = some tx → tx.failed = false → People D tx.copy

section Pool
variable {ok : Allow Action Choice State} {m : Mode} {w w' : World} {l l' : Own} {D : DB}

/-- A step that changes neither. -/
theorem PeopleInv.same (h : PeopleInv D (w, l)) (hdb : w'.db = w.db) (hw : w'.writer = w.writer) :
    PeopleInv D (w', l') := by
  refine ⟨?_, fun tx htx => h.2 tx ?_⟩
  · show People D w'.db
    rw [hdb]
    exact h.1
  · exact hw.symm.trans htx

theorem PeopleInv.rollback (h : PeopleInv D (w, l)) : PeopleInv D (w.rollback, l') :=
  ⟨h.1, fun _ htx => by simp at htx⟩

/-- Statements that succeed or raise leave such a copy; ones that SQLite breaks off leave a
transaction that fails. -/
theorem PeopleInv.sql {α : Type} {s : Sql α} (hs : s.Keeps) (h : PeopleInv D (w, l)) {tx : Tx}
    (htx : ownTx (w, l) = some tx) {r : Except Err α}
    (hn : sem.Next ok (w, l) (.sql s) r (w', l')) : PeopleInv D (w', l') := by
  have hw : w.writer = some tx := (inTx_of_ownTx htx).2
  rcases next_sql htx hn with ⟨inp, db', -, -, rfl, rfl, hm⟩ |
      ⟨msg, gone, left, -, -, ⟨-, rfl, rfl⟩ | ⟨-, rfl, rfl⟩⟩
  · refine ⟨h.1, fun tx' htx' hfail => ?_⟩
    obtain rfl := Option.some.inj htx'
    have hkeeps : People tx.copy db' := by
      rcases hm with ⟨a, hm, -⟩ | ⟨e, hm, -⟩
      · exact hs.ok hm
      · exact hs.error hm
    exact (h.2 tx hw hfail).trans hkeeps
  · exact h.rollback
  · refine ⟨h.1, fun tx' htx' hfail => ?_⟩
    obtain rfl := Option.some.inj htx'
    simp at hfail

theorem PeopleInv.plain {a : Action Unit} {call : Call} (effect : World → World)
    (h : PeopleInv D (w, l)) (he : (effect w).db = w.db ∧ (effect w).writer = w.writer)
    (hcall : a.call? = some call)
    (ha : ∀ c, respond c a (w, l) = WebProxyPanel.plain c effect (w, l)) {r : Except Err Unit}
    (hn : sem.Next ok (w, l) a r (w', l')) : PeopleInv D (w', l') := by
  rcases next_plain hcall ha hn with ⟨-, rfl, rfl⟩ | ⟨msg, done, -, -, rfl, rfl⟩
  · exact h.same he.1 he.2
  · cases done with
    | true => exact h.same he.1 he.2
    | false => exact h.same rfl rfl

theorem PeopleInv.read {β : Type} {a : Action β} {call : Call} {b : β} {f : String → Err}
    (h : PeopleInv D (w, l)) (hcall : a.call? = some call)
    (ha : ∀ c, respond c a (w, l) = WebProxyPanel.read c b f (w, l)) {r : Except Err β}
    (hn : sem.Next ok (w, l) a r (w', l')) : PeopleInv D (w', l') := by
  rcases next_read hcall ha hn with ⟨-, rfl, rfl⟩ | ⟨msg, done, -, -, rfl, rfl⟩
  · exact h.same rfl rfl
  · exact h.same rfl rfl

/-- One action of a program whose statements leave users and devices alone. -/
theorem PeopleInv.next {β : Type} {a : Action β} {r : Except Err β} (h : PeopleInv D (w, l))
    (hp : a.keepsPeople) (hg : guard m w l a) (hn : sem.Next ok (w, l) a r (w', l')) :
    PeopleInv D (w', l') := by
  cases a with
  | sql s =>
    obtain ⟨tx, htx⟩ := next_sql_open hn
    exact h.sql hp htx hn
  | beginImmediate =>
    rcases next_begin hn with ⟨-, -, rfl, rfl⟩ | ⟨msg, done, -, -, rfl, rfl⟩
    · refine ⟨h.1, fun tx htx _ => ?_⟩
      obtain rfl := Option.some.inj htx
      exact h.1
    · exact h.same rfl rfl
  | commit =>
    obtain ⟨tx, htx, hc⟩ := hg
    rcases next_commit htx hn with ⟨-, -, rfl, rfl⟩ |
        ⟨msg, gone, left, -, -, ⟨-, rfl, rfl⟩ | ⟨-, rfl, rfl⟩⟩
    · exact ⟨h.2 tx (inTx_of_ownTx htx).2 hc.whole, fun _ htx' => by simp at htx'⟩
    · exact h.rollback
    · exact h.same rfl rfl
  | rollback =>
    rcases next_rollback hn with ⟨tx, htx, -, rfl, rfl⟩ | ⟨-, -, rfl, rfl⟩
    · exact h.rollback
    · exact h.same rfl rfl
  | fwCall call =>
    -- the copy stays, and a failure marks the transaction
    have hcall : ∀ fails done l₁, PeopleInv D (w.fwCall call fails done, l₁) := by
      refine fun fails done l₁ => ⟨h.1, fun tx htx hfail => ?_⟩
      obtain ⟨tx₀, hw, rfl⟩ := Option.map_eq_some_iff.1 htx
      exact h.2 tx₀ hw (Bool.or_eq_false_iff.1 hfail).1
    rcases next_fwCall hn with ⟨-, rfl, rfl⟩ | ⟨msg, done, -, -, rfl, rfl⟩
    · exact hcall _ _ _
    · exact hcall _ _ _
  | now =>
    obtain ⟨-, rfl, rfl⟩ := next_now hn
    exact h.same rfl rfl
  | inTransaction =>
    obtain ⟨-, rfl, rfl⟩ := next_inTransaction hn
    exact h
  | firewallCalls =>
    obtain ⟨-, rfl, rfl⟩ := next_firewallCalls hn
    exact h
  | query f => exact h.read rfl (fun _ => rfl) hn
  | ctlSelect f => exact h.read rfl (fun _ => rfl) hn
  | ctlCurrent => exact h.read rfl (fun _ => rfl) hn
  | readFile p => exact h.read rfl (fun _ => rfl) hn
  | ctlReplace ports blocked =>
    rcases next_ctlReplace hn with ⟨-, -, rfl, rfl⟩ | ⟨msg, done, -, -, rfl, rfl⟩
    · exact h.same rfl rfl
    · cases done with
      | true => exact h.same rfl rfl
      | false => exact h.same rfl rfl
  | writeFile p data => exact h.plain (World.setFile p (some data)) ⟨rfl, rfl⟩ rfl (fun _ => rfl) hn
  | removeFile p => exact h.plain (World.setFile p none) ⟨rfl, rfl⟩ rfl (fun _ => rfl) hn
  | restartRelay => exact h.plain id ⟨rfl, rfl⟩ rfl (fun _ => rfl) hn
  | restartShard k => exact h.plain id ⟨rfl, rfl⟩ rfl (fun _ => rfl) hn
  | stopShard k => exact h.plain id ⟨rfl, rfl⟩ rfl (fun _ => rfl) hn
  | enableShard k =>
    exact h.plain (fun w => w.setUnits (insert k w.units)) ⟨rfl, rfl⟩ rfl (fun _ => rfl) hn
  | disableShard k =>
    exact h.plain (fun w => w.setUnits (w.units.erase k)) ⟨rfl, rfl⟩ rfl (fun _ => rfl) hn
  | relayCheck p q =>
    obtain ⟨rfl, -⟩ := next_relayCheck hn
    exact h.same rfl rfl
  | waitHealthy ks =>
    obtain ⟨rfl, -⟩ := next_waitHealthy hn
    exact h.same rfl rfl
  | lock =>
    rcases next_lock hn with ⟨-, -, rfl, rfl⟩ | ⟨msg, done, -, -, rfl, rfl⟩
    · exact h.same rfl rfl
    · exact h.same rfl rfl
  | unlock =>
    obtain ⟨-, rfl, rfl⟩ := next_unlock hn
    exact h.same rfl rfl

/-- `maintain` and `sync`, however far they come and however they end, leave users and devices
alone. -/
theorem runs_people {op : Op} {n : Nat} (h : Resting w) (hu : op.isUser = false)
    {out : Except Err Unit} (hs : sem.Runs ok op.program (w, Own.idle n) out (w', l')) :
    People w.db w'.db := by
  have hready : Ready ok w (Own.idle n) := h.ready n
  have hinv : PeopleInv w.db (w, Own.idle n) :=
    ⟨.refl w.db, fun tx htx => by rw [h.writer] at htx; simp at htx⟩
  have hend : PeopleInv w.db (w', l') := by
    refine Safe.steps_keep_only isRely_interferes ?_ (only_pool hu)
      (@safe_program ok true w _ hready op) hs hinv
    rintro ⟨w₁, l₁⟩ ⟨w₂, l₂⟩ β a r hj ha hg hn
    exact hj.next ha hg hn
  exact hend.1

/-- One operation of a sequential run, for the tables of people: it leaves them alone or it has its
effect. -/
theorem runs_moved {op : Op} {n : Nat} {T : Int → Prop} (hT : Clocked T ok) (h : Resting w)
    {out : Except Err Unit} (hs : sem.Runs ok op.program (w, Own.idle n) out (w', l')) :
    People w.db w'.db ∨
      op.isUser = true ∧ out = .ok () ∧ ∃ ids,
        Leaves T op w.db ids w'.db (firewallCalls l'.trace) := by
  cases hu : op.isUser with
  | false => exact .inl (runs_people h hu hs)
  | true =>
    cases out with
    | ok _ => exact .inr ⟨rfl, rfl, runs_effect hT hu hs⟩
    | error e =>
      rw [(resting_runs h hs).2 hu e rfl]
      exact .inl (.refl _)

theorem KeepsLink.trans {db₀ db db' : DB} {d d' : Device} (h : KeepsLink db₀ db d)
    (hid : d'.slotId = d.slotId) (h' : KeepsLink db db' d')
    (hkey : d'.id = d.id ∧ d'.userId = d.userId) : KeepsLink db₀ db' d := by
  obtain ⟨d'', hd'', hid'', hu'', hslot''⟩ := h'.1
  refine ⟨⟨d'', hd'', hid''.trans hkey.1, hu''.trans hkey.2, hslot''.trans hid⟩,
    fun s hs hsid => ?_⟩
  obtain ⟨s₁, hs₁, hid₁, hport₁, hsec₁⟩ := h.2 s hs hsid
  obtain ⟨s₂, hs₂, hid₂, hport₂, hsec₂⟩ := h'.2 s₁ hs₁ (hid₁.trans (hsid.trans hid.symm))
  exact ⟨s₂, hs₂, hid₂.trans hid₁, hport₂.trans hport₁, hsec₂.trans hsec₁⟩

/-- A device stays on its slot, with its port, unless the operation takes it. -/
theorem runs_links {op : Op} {n : Nat} (h : Resting w) {out : Except Err Unit}
    (hs : sem.Runs ok op.program (w, Own.idle n) out (w', l')) {d : Device}
    (hd : d ∈ w.db.devices) : op.TakesSlot d ∨ KeepsLink w.db w'.db d := by
  have hready : Ready ok w (Own.idle n) := h.ready n
  refine Safe.steps_keep isRely_interferes (J := fun s => op.TakesSlot d ∨ KeepsLink w.db s.1.db d)
    ?_ (@safe_program ok true w _ hready op) hs (.inr (.refl hd))
  rintro ⟨w₁, l₁⟩ ⟨w₂, l₂⟩ β a r (hj | hj) hg hn
  · exact .inl hj
  obtain ⟨d₁, hd₁, hid, huser, hslot⟩ := hj.1
  rcases (does_of_next hg hn).keepsLink hd₁ with hm | hk
  · rw [hid, huser] at hm
    exact .inl ((op.moves_iff d).1 hm)
  · exact .inr (hj.trans hslot hk ⟨hid, huser⟩)

end Pool

/-! ## Runs of operations of one kind -/

/-- Operations that satisfy `P`, one after the other. -/
inductive Course (ok : Allow Action Choice State) (P : Op → Prop) : World → World → Prop
  | refl (w : World) : Course ok P w w
  | tail {w w₁ w₂ : World} (op : Op) (n : Nat) (out : Except Err Unit) (l : Own) :
      Course ok P w w₁ → P op →
      sem.Runs ok op.program (w₁, Own.idle n) out (w₂, l) → Course ok P w w₂

theorem Course.resting {ok : Allow Action Choice State} {P : Op → Prop} {w w' : World}
    (h : Resting w) (hs : Course ok P w w') : Resting w' := by
  induction hs with
  | refl => exact h
  | tail op n out l _ _ hr ih => exact (resting_runs ih hr).1

namespace Course
variable {ok : Allow Action Choice State} {P : Op → Prop} {w w₁ w₂ : World}

theorem sequence (h : Course ok P w w₁) : Sequence ok w w₁ := by
  induction h with
  | refl => exact .refl w
  | tail op n out l _ _ hr ih => exact .tail op n out l ih hr

theorem trans (h : Course ok P w w₁) (h' : Course ok P w₁ w₂) : Course ok P w w₂ := by
  induction h' with
  | refl => exact h
  | tail op n out l _ hp hr ih => exact .tail op n out l ih hp hr

end Course

/-- Operations that return, each against its choices. -/
def playOps (allow : Choice → {β : Type} → Action β → State → Bool) :
    List (Op × List Choice) → World → Option World
  | [], w => some w
  | (op, cs) :: rest, w => (sem.play allow cs op.program (w, Own.idle 0)).bind fun x =>
    if x.1.outcome? = some (.ok ()) then playOps allow rest x.2.1 else none

theorem course_of_playOps {allow : Choice → {β : Type} → Action β → State → Bool} {P : Op → Prop} :
    ∀ {xs : List (Op × List Choice)} {w w' : World}, (∀ x ∈ xs, P x.1) →
      playOps allow xs w = some w' →
      Course (fun c {_} a s => allow c a s = true) P w w'
  | [], w, w', _, h => by
    obtain rfl := Option.some.inj h
    exact .refl w
  | (op, cs) :: rest, w, w', hp, h => by
    obtain ⟨⟨p, w₁, l⟩, hplay, h⟩ := Option.bind_eq_some_iff.1 h
    dsimp only at h
    split at h
    · rename_i hout
      have hout := Prog.outcome?_eq_some.1 hout
      subst hout
      have hfirst := Course.tail op 0 (.ok ()) l (.refl w) (hp _ List.mem_cons_self)
          (Sem.Steps.of_play hplay)
      exact hfirst.trans (course_of_playOps (fun x hx => hp x (List.mem_cons_of_mem _ hx)) h)
    · simp at h

/-- Nothing fails, and the clock shows `t`. -/
def sharp (t : Int) (c : Choice) {β : Type} (_ : Action β) (_ : State) : Bool :=
  decide (c.result = .ok) && match c with
    | .inputs inp => inp.times.all (· = t)
    | _ => true

theorem clocked_sharp (t : Int) : Clocked (· = t) fun c {_} a s => sharp t c a s = true := by
  intro inp β a s h x hx
  simp only [sharp, Bool.and_eq_true, List.all_eq_true, decide_eq_true_eq] at h
  exact h.2 x hx

/-- One shard, then one user with one device. -/
def sampleSetup : List (Op × List Choice) :=
  [(samplePool, growOnce ((List.range 16).map sampleToken)), (.createUser sampleUser, createOnce)]

theorem sampleSetup_plays : (playOps anything sampleSetup World.initial).isSome = true :=
  by decide +kernel

def World.sample : World := (playOps anything sampleSetup World.initial).get sampleSetup_plays

theorem sequence_sample :
    Sequence (fun c {_} a s => anything c a s = true) World.initial World.sample :=
  (course_of_playOps (P := fun _ => True) (fun _ _ => trivial)
    (Option.some_get sampleSetup_plays).symm).sequence

/-- `disable_user` of an enabled user without failures; `enable_user` takes the same steps. -/
def switchOnce : List Choice := succeed 4 ++ [.inputs ⟨[0], []⟩] ++ succeed 2

end WebProxyPanel
