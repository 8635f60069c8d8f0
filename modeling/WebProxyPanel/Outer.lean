import WebProxyPanel.Maintain
/-!
# What programs ask for, and what single actions keep

`Prog.Only` for the parts of programs: transactions and the sync ask for `inner` actions around what
their bodies ask for, and `apply` does most of its work with `outer` ones. The lemmas `respond_*`
say what no action, or no action of a kind, changes.
-/

namespace WebProxyPanel
open Effects

/-- A single `SELECT`, files, processes and units. -/
def Action.outer {β : Type} : Action β → Prop
  | .query _ | .writeFile _ _ | .readFile _ | .removeFile _ | .relayCheck _ _ | .restartRelay |
      .restartShard _ | .stopShard _
  | .enableShard _ | .waitHealthy _ => True
  | _ => False

/-- What transactions, `_change` and the sync ask for by themselves. -/
def Action.inner {β : Type} : Action β → Prop
  | .inTransaction | .beginImmediate | .commit | .rollback | .firewallCalls | .ctlSelect _ |
    .ctlCurrent | .ctlReplace _ _ =>
    True
  | _ => False

/-- Everything but the pool lock. -/
def Action.unlocked {β : Type} : Action β → Prop
  | .lock => False
  | _ => True

/-! ## What one action keeps -/

/-- An action is its response, with an entry in the record. -/
theorem perform_respond {c : Choice} {β : Type} {a : Action β} {s : State} {w' : World} {l' : Own}
    {r : Except Err β} (h : sem.perform c a s = some (r, (w', l'))) :
    ∃ l₁, respond c a s = some (r, (w', l₁)) ∧ l' = l₁.note (entries c a) := by
  obtain ⟨⟨r₁, w₁, l₁⟩, hr, he⟩ := Option.map_eq_some_iff.1 h
  obtain ⟨rfl, hstate⟩ := Prod.mk.inj he
  obtain ⟨rfl, rfl⟩ := Prod.mk.inj hstate
  exact ⟨l₁, hr, rfl⟩

theorem next_respond {ok : Allow Action Choice State} {β : Type} {a : Action β} {s : State}
    {w' : World} {l' : Own} {r : Except Err β} (h : sem.Next ok s a r (w', l')) :
    ∃ c l₁, ok c a s ∧ respond c a s = some (r, (w', l₁)) ∧ l' = l₁.note (entries c a) := by
  obtain ⟨c, hc, hp⟩ := h
  obtain ⟨l₁, hr, hl⟩ := perform_respond hp
  exact ⟨c, l₁, hc, hr, hl⟩

section Respond
variable {c : Choice} {β : Type} {a : Action β} {w w' : World} {l l' : Own} {r : Except Err β}

/-- Only the record itself adds to the record. -/
theorem respond_trace (h : respond c a (w, l) = some (r, (w', l'))) : l'.trace = l.trace := by
  cases a <;> simp only [respond, plain, read, runSql] at h <;>
    grind [Own.rolledBack, Own.called, Own.replaced]

/-- A process alone holds `pool.lock` whenever it is held. -/
theorem respond_poolLock (h : respond c a (w, l) = some (r, (w', l')))
    (hlock : l.locked = w.poolLock) : l'.locked = w'.poolLock := by
  cases a <;> simp only [respond, plain, read, runSql] at h <;>
    grind [Own.rolledBack, Own.called, Own.replaced, World.rollback, World.commit,
    World.begin_, World.fwCall, World.replace, World.setFile, World.setUnits, World.setLock]

theorem respond_unlocked (ha : a.unlocked) (h : respond c a (w, l) = some (r, (w', l')))
    (hlock : l.locked = false) : l'.locked = false := by
  cases a <;> first
    | exact ha.elim
    | (simp only [respond, plain, read, runSql] at h
       grind [Own.rolledBack, Own.called, Own.replaced])

/-- Outer actions disable nothing. -/
theorem respond_outer (ha : a.outer) (h : respond c a (w, l) = some (r, (w', l'))) :
    l' = l ∧ w'.writer = w.writer ∧ w'.db = w.db ∧ w.units ⊆ w'.units := by
  cases a <;> first
    | exact ha.elim
    | (simp only [respond, plain, read] at h
       grind [World.setFile, World.setUnits, Finset.subset_insert])

end Respond

/-! ## Parts of programs -/

section Inner
variable {H : {β : Type} → Action β → Prop} {α : Type}

theorem only_transaction (hH : ∀ {γ : Type} (a : Action γ), a.inner → H a) {body : P α}
    (h : body.Only H) : (transaction body).Only H := by
  refine Prog.Only.bind (Prog.Only.call (hH _ trivial)) fun b => ?_
  have hrollback : (Prog.call .rollback : P Unit).Only H := Prog.Only.call (hH _ trivial)
  cases b with
  | true => exact h
  | false =>
    refine Prog.Only.bind (Prog.Only.call (hH _ trivial)) fun _ => Prog.Only.bind ?_ fun a =>
      Prog.Only.bind ?_ fun _ => trivial
    · exact Prog.Only.tryCatch h fun e => Prog.Only.bind hrollback fun _ => trivial
    · refine Prog.Only.tryCatch (Prog.Only.call (hH _ trivial)) fun e =>
        Prog.Only.bind (Prog.Only.call (hH _ trivial)) fun o => ?_
      exact Prog.Only.bind (Prog.Only.runIf hrollback) fun _ => trivial

theorem only_bestEffort {p : P Unit} (h : p.Only H) : (bestEffort p).Only H :=
  Prog.Only.tryCatch h fun _ => trivial

theorem only_syncFirewall (hH : ∀ {γ : Type} (a : Action γ), a.inner → H a) :
    syncFirewall.Only H := by
  unfold syncFirewall
  refine Prog.Only.bind (Prog.Only.call (hH _ trivial)) fun ports =>
    Prog.Only.bind (Prog.Only.call (hH _ trivial)) fun blocked => ?_
  refine Prog.Only.bind (Prog.Only.call (hH _ trivial)) fun shards => ?_
  split
  · trivial
  split
  · trivial
  exact Prog.Only.bind (Prog.Only.call (hH _ trivial)) fun _ => Prog.Only.call (hH _ trivial)

theorem only_change (hH : ∀ {γ : Type} (a : Action γ), a.inner → H a) {body : P α}
    (h : body.Only H) : (change body).Only H := by
  refine Prog.Only.bind (Prog.Only.call (hH _ trivial)) fun b => ?_
  cases b with
  | true => exact h
  | false =>
    refine Prog.Only.bind (Prog.Only.call (hH _ trivial)) fun before =>
      Prog.Only.tryCatch (only_transaction hH h) fun e => ?_
    refine Prog.Only.bind (Prog.Only.call (hH _ trivial)) fun calls =>
      Prog.Only.bind (Prog.Only.runIf ?_) fun _ => trivial
    exact only_bestEffort (only_syncFirewall hH)

end Inner

/-! ## The parts of `apply` -/

theorem outer_renderEnvs (cfg : Config) : ∀ shards, (renderEnvs cfg shards).Only Action.outer
  | [] => trivial
  | shard :: shards => by
    refine Prog.Only.bind (Prog.Only.call trivial) fun text => Prog.Only.bind ?_ fun text => ?_
    · cases text <;> trivial
    · exact Prog.Only.bind (outer_renderEnvs cfg shards) fun _ => trivial

theorem outer_renderAll (a : ApplyArgs) : (renderAll a).Only Action.outer :=
  Prog.Only.bind (Prog.Only.call trivial) fun _ =>
    Prog.Only.bind (outer_renderEnvs _ _) fun _ => trivial

theorem outer_readFiles : ∀ paths, (readFiles paths).Only Action.outer
  | [] => trivial
  | _ :: paths =>
    Prog.Only.bind (Prog.Only.call trivial) fun _ =>
      Prog.Only.bind (outer_readFiles paths) fun _ => trivial

theorem outer_restore (previous : List (Path × Option Content)) :
    (restore previous).Only Action.outer := by
  refine Prog.Only.forM (fun x => ?_) previous
  cases x.2 with
  | none => exact Prog.Only.call trivial
  | some data => exact Prog.Only.call trivial

theorem outer_checkCandidates (r : Rendered) : (checkCandidates r).Only Action.outer := by
  refine Prog.Only.bind (Prog.Only.call trivial) fun _ =>
    Prog.Only.bind (Prog.Only.call trivial) fun _ => ?_
  exact Prog.Only.tryFinally (Prog.Only.call trivial)
    (Prog.Only.bind (Prog.Only.call trivial) fun _ => Prog.Only.call trivial)

/-- Restarts of shards and the relay. -/
theorem outer_restarts (shards : List Int) :
    ((shards.forM fun shard => (Prog.call (.restartShard shard) : P Unit)).bind fun _ =>
      Prog.call .restartRelay).Only Action.outer :=
  Prog.Only.bind (Prog.Only.forM (fun _ => Prog.Only.call trivial) shards) fun _ =>
    Prog.Only.call trivial

end WebProxyPanel
