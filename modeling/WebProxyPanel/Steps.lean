import WebProxyPanel.Ops
/-!
# What one step of a guarded process can do

`Does` lists it once: eleven kinds of steps, each with what the guard says about it. Every invariant
of the whole system is a case analysis on `Does`.
-/

namespace WebProxyPanel
open Effects

/-- A value that the random source may return now. -/
def Drawable (ok : Allow Action Choice State) (w : World) (l : Own) (v : String) : Prop :=
  ∃ (inp : Inputs) (α : Type) (m : Sql α), ok (.inputs inp) (.sql m) (w, l) ∧ v ∈ inp.tokens

inductive Does (ok : Allow Action Choice State) (m : Mode) (w : World) (l : Own) :
    World → Own → Prop
  /-- Reads, answers, and whatever failed without effect. -/
  | nothing (es : List Entry) : Does ok m w l w (l.note es)
  | begin_ (es : List Entry) : w.writer = none → l.inTx = false →
      Does ok m w l w.begin_ ({ l with inTx := true }.note es)
  | statements (tx tx' : Tx) (es : List Entry) : ownTx (w, l) = some tx → tx'.issued = tx.issued →
      (tx'.failed = false → tx.failed = false) →
        (∀ v ∈ tx'.drawn, v ∈ tx.drawn ∨ Drawable ok w l v) →
      Does ok m w l { w with writer := some tx' } (l.note es)
  | commit (tx : Tx) (es : List Entry) : ownTx (w, l) = some tx → CommitOk m.moves l w tx →
      ok .ok .commit (w, l) → Does ok m w l (w.commit tx) ({ l with inTx := false }.note es)
  | rollback (tx : Tx) (es : List Entry) : ownTx (w, l) = some tx → Does ok m w l w.rollback
      ((l.rolledBack tx).note es)
  | fwCall (call : FwCall) (fails done : Bool) (es : List Entry) : guard m w l (.fwCall call) →
      (fails = false → done = true) → Does ok m w l (w.fwCall call fails done)
        ((l.called call).note es)
  | replace (ports blocked : List Int) (l' : Own) (es : List Entry) : guard m w l
      (.ctlReplace ports blocked) →
      (∃ c, ok c (.ctlReplace ports blocked) (w, l)) → l' = l ∨ l' = l.replaced →
      Does ok m w l (w.replace l.inTx ports blocked) (l'.note es)
  | file (p : Path) (data : Option Content) (es : List Entry) : l.locked = true →
      PathOk w.db p data → Does ok m w l (w.setFile p data) (l.note es)
  | units (units : Finset Int) (es : List Entry) : l.locked = true → Does ok m w l
      (w.setUnits units) (l.note es)
  | lock (es : List Entry) : w.poolLock = false → l.inTx = false →
      Does ok m w l (w.setLock true) ({ l with locked := true, synced := false }.note es)
  | unlock (es : List Entry) : l.locked = true → l.inTx = false →
      Does ok m w l (w.setLock false) ({ l with locked := false, synced := false }.note es)

section Steps
variable {ok : Allow Action Choice State} {m : Mode} {w w' : World} {l l' : Own}

theorem does_plain {a : Action Unit} {call : Call} (effect : World → World)
    (hcall : a.call? = some call) (ha : ∀ c, respond c a (w, l) = plain c effect (w, l))
    {r : Except Err Unit} (he : ∀ es, Does ok m w l (effect w) (l.note es))
    (hn : sem.Next ok (w, l) a r (w', l')) : Does ok m w l w' l' := by
  rcases next_plain hcall ha hn with ⟨-, rfl, rfl⟩ | ⟨msg, done, -, -, rfl, rfl⟩
  · exact he _
  · cases done with
    | true => exact he _
    | false => exact .nothing _

/-- An action that changes nothing in the world. -/
theorem does_idle {a : Action Unit} {call : Call} (hcall : a.call? = some call)
    (ha : ∀ c, respond c a (w, l) = plain c id (w, l)) {r : Except Err Unit}
    (hn : sem.Next ok (w, l) a r (w', l')) : Does ok m w l w' l' :=
  does_plain id hcall ha (fun es => .nothing es) hn

theorem does_read {β : Type} {a : Action β} {call : Call} {b : β} {f : String → Err}
    (hcall : a.call? = some call) (ha : ∀ c, respond c a (w, l) = read c b f (w, l))
    {r : Except Err β} (hn : sem.Next ok (w, l) a r (w', l')) : Does ok m w l w' l' := by
  rcases next_read hcall ha hn with ⟨-, rfl, rfl⟩ | ⟨msg, done, -, -, rfl, rfl⟩
  · exact .nothing _
  · exact .nothing _

theorem does_of_next {β : Type} {a : Action β} {r : Except Err β} (hg : guard m w l a)
    (hn : sem.Next ok (w, l) a r (w', l')) : Does ok m w l w' l' := by
  have hnil : ∀ w, Does ok m w l w l := fun w => by
    have := @Does.nothing ok m w l []
    rwa [l.note_nil] at this
  cases a with
  | now =>
    obtain ⟨-, rfl, rfl⟩ := next_now hn
    exact .nothing _
  | inTransaction =>
    obtain ⟨-, rfl, rfl⟩ := next_inTransaction hn
    exact hnil _
  | beginImmediate =>
    rcases next_begin hn with ⟨-, hw, rfl, rfl⟩ | ⟨msg, done, -, -, rfl, rfl⟩
    · exact .begin_ _ hw hg
    · exact .nothing _
  | commit =>
    obtain ⟨tx, htx, hc⟩ := hg
    rcases next_commit htx hn with ⟨hok, -, rfl, rfl⟩ |
        ⟨msg, gone, left, -, -, ⟨-, rfl, rfl⟩ | ⟨-, rfl, rfl⟩⟩
    · exact .commit tx _ htx hc hok
    · exact .rollback tx _ htx
    · exact .nothing _
  | rollback =>
    rcases next_rollback hn with ⟨tx, htx, -, rfl, rfl⟩ | ⟨-, -, rfl, rfl⟩
    · exact .rollback tx _ htx
    · exact .nothing _
  | sql s =>
    obtain ⟨tx, htx⟩ := next_sql_open hn
    rcases next_sql htx hn with ⟨inp, db', hok, -, rfl, rfl, -⟩ |
        ⟨msg, gone, left, -, -, ⟨-, rfl, rfl⟩ | ⟨-, rfl, rfl⟩⟩
    · refine .statements tx _ _ htx rfl (fun h => h) fun v hv => ?_
      exact (List.mem_append.1 hv).imp_right fun hv => ⟨inp, _, s, hok, hv⟩
    · exact .rollback tx _ htx
    · exact .statements tx _ _ htx rfl (fun h => by simp at h) fun v hv => .inl hv
  | query f => exact does_read rfl (fun _ => rfl) hn
  | firewallCalls =>
    obtain ⟨-, rfl, rfl⟩ := next_firewallCalls hn
    exact hnil _
  | fwCall call =>
    rcases next_fwCall hn with ⟨-, rfl, rfl⟩ | ⟨msg, done, -, -, rfl, rfl⟩
    · exact .fwCall call false true _ hg fun _ => rfl
    · exact .fwCall call true done _ hg fun h => by simp at h
  | ctlSelect f => exact does_read rfl (fun _ => rfl) hn
  | ctlCurrent => exact does_read rfl (fun _ => rfl) hn
  | ctlReplace ports blocked =>
    rcases next_ctlReplace hn with ⟨hok, -, rfl, rfl⟩ | ⟨msg, done, hok, -, rfl, rfl⟩
    · exact .replace ports blocked _ _ hg ⟨_, hok⟩ (.inr rfl)
    · cases done with
      | true => exact .replace ports blocked _ _ hg ⟨_, hok⟩ (.inl rfl)
      | false => exact .nothing _
  | writeFile p data =>
    exact does_plain (World.setFile p (some data)) rfl (fun _ => rfl)
      (fun es => .file p (some data) es hg.1 hg.2) hn
  | readFile p => exact does_read rfl (fun _ => rfl) hn
  | removeFile p =>
    exact does_plain (World.setFile p none) rfl (fun _ => rfl)
      (fun es => .file p none es hg.1 hg.2) hn
  | relayCheck p q =>
    obtain ⟨rfl, ⟨_, -, rfl⟩ | ⟨_, -, -, rfl⟩ | ⟨_, _, -, -, rfl⟩⟩ := next_relayCheck hn
    all_goals exact .nothing _
  | restartRelay => exact does_idle rfl (fun _ => rfl) hn
  | restartShard k => exact does_idle rfl (fun _ => rfl) hn
  | stopShard k => exact does_idle rfl (fun _ => rfl) hn
  | enableShard k =>
    exact does_plain (fun w => w.setUnits (insert k w.units)) rfl (fun _ => rfl)
      (fun es => .units _ es hg) hn
  | disableShard k =>
    exact does_plain (fun w => w.setUnits (w.units.erase k)) rfl (fun _ => rfl)
      (fun es => .units _ es hg) hn
  | waitHealthy ks =>
    obtain ⟨rfl, ⟨-, rfl⟩ | ⟨_, -, -, rfl⟩ | ⟨_, _, -, -, rfl⟩⟩ := next_waitHealthy hn
    all_goals exact .nothing _
  | lock =>
    rcases next_lock hn with ⟨-, hp, rfl, rfl⟩ | ⟨msg, done, -, -, rfl, rfl⟩
    · exact .lock _ hp hg.2
    · exact .nothing _
  | unlock =>
    obtain ⟨-, rfl, rfl⟩ := next_unlock hn
    exact .unlock _ hg.1 hg.2

end Steps

end WebProxyPanel
