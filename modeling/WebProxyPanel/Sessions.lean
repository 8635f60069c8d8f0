import WebProxyPanel.Sizing
import WebProxyPanel.Filled
import WebProxyPanel.Served
/-!
# The session budget of a pool that grows

`compute` fixes `max_sessions_global` at installation, one session for every slot of the estimate.
The relay's configuration is rendered again by each `maintain` that applies something; of the limits
it raises only `max_profiles`.

* `Installed` — the states that user operations and successful `maintain` calls with one plan lead
  to.
* `Configured` — what the files then say of the pool.
-/

namespace WebProxyPanel
open Table Effects

/-! ## Runs of one installation -/

/-- User operations, which may fail, and `maintain` calls that return, one after the other, from the
empty pool on. -/
inductive Installed (sizing : Sizing) : World → Prop
  | empty : Installed sizing World.initial
  | user {w w' : World} {op : Op} {n : Nat} {out : Except Err Unit} {l : Own} : Installed sizing w →
      op.isUser = true →
      sem.Runs anyFault op.program (w, Own.idle n) out (w', l) → Installed sizing w'
  | maintained {w w' : World} {cfg : Config} {growShards : Option Int} {n : Nat} {report : Report}
      {l : Own} : Installed sizing w →
      sem.Runs anyFault (maintain cfg sizing growShards) (w, Own.idle n) (.ok report) (w', l) →
        Installed sizing w'

/-- The relay's files are those of the pool: a profile for every slot, and the limits of the plan.
-/
def Rendered.ofPool (sizing : Sizing) (w : World) : Prop :=
  w.db.slots = [] ∧ w.files .relayConfig = none ∨
    ∃ cfg ps, w.files .profiles = some (.profiles ps) ∧ ps.length = w.db.slots.length ∧
      w.files .relayConfig = some (.relayConfig (renderRelayConfig cfg sizing ps.length))

structure Configured (sizing : Sizing) (w : World) : Prop where
  resting : Resting w
  nothing : NothingStaged w.db
  files : Rendered.ofPool sizing w

section Configured
variable {sizing : Sizing} {w w' : World}

theorem configured_initial : Configured sizing World.initial where
  resting := resting_initial
  nothing := ⟨by simp [World.initial, DB.empty], by simp [World.initial, DB.empty], by simp [World.initial, DB.empty]⟩
  files := .inl ⟨rfl, rfl⟩

/-- What does not touch the files, nor the number of slots. -/
theorem Rendered.ofPool.frame (h : Rendered.ofPool sizing w) (hfiles : w'.files = w.files)
    (hslots : w'.db.slots.length = w.db.slots.length) : Rendered.ofPool sizing w' := by
  rcases h with ⟨hnil, hnone⟩ | ⟨cfg, ps, hps, hlen, hc⟩
  · refine .inl ⟨List.length_eq_zero_iff.1 ?_, by rw [hfiles, hnone]⟩
    rw [hslots, hnil]
    rfl
  · exact .inr ⟨cfg, ps, by rw [hfiles, hps], by rw [hlen, hslots], by rw [hfiles, hc]⟩

theorem NothingStaged.frame {db db' : DB} (h : NothingStaged db) (hf : PoolFrame db db') :
    NothingStaged db' where
  pending s' hs' := by
    obtain ⟨s, hs, hp⟩ := hf.before hs'
    rw [(core_eq_iff.1 hp.1).2.2.2.2.2]
    exact h.pending s hs
  shards := by
    rw [hf.shards]
    exact h.shards
  slots s' hs' := by
    obtain ⟨s, hs, hp⟩ := hf.before hs'
    exact (hf.onActive hp).2 (h.slots s hs)

/-- A user operation leaves shards, the number of slots and the files alone, and stages nothing. -/
theorem Configured.user (h : Configured sizing w) {op : Op} {n : Nat} {out : Except Err Unit}
    {l : Own} (hu : op.isUser = true)
    (hrun : sem.Runs anyFault op.program (w, Own.idle n) out (w', l)) : Configured sizing w' := by
  have hop : ∀ cfg sizing growShards, op ≠ .maintain cfg sizing growShards := by
    rintro cfg sizing growShards rfl
    simp [Op.isUser] at hu
  obtain ⟨hframe, hfiles⟩ : PoolFrame w.db w'.db ∧ w'.files = w.files := by
    refine unlocked_keeps (J := fun v => PoolFrame w.db v.db ∧ v.files = w.files) hop ?_ h.resting
      ⟨.refl _, rfl⟩ hrun
    intro v v' k k' hj hlock hlock' hd
    cases hd with
    | commit tx es htx hc _ => exact ⟨hj.1.trans (hc.frame hlock), hj.2⟩
    | file p data es hl _ => simp [hlock] at hl
    | units units es hl => simp [hlock] at hl
    | lock es _ _ => simp at hlock'
    | unlock es hl _ => simp [hlock] at hl
    | _ => exact hj
  refine ⟨(resting_runs h.resting hrun).1, ?_, ?_⟩
  · exact h.nothing.frame hframe
  · exact h.files.frame hfiles hframe.slots.length_eq.symm

/-- A `maintain` call that has something to apply renders the pool that it leaves. -/
theorem Configured.maintained (h : Configured sizing w) {cfg : Config} {growShards : Option Int}
    {n : Nat} {report : Report} {l : Own}
    (hrun : sem.Runs anyFault (maintain cfg sizing growShards) (w, Own.idle n) (.ok report) (w', l)) :
    Configured sizing w' := by
  have hinv := h.resting.world.1
  have hdone := maintained_of_runs hinv h.resting.writer hrun
  obtain ⟨-, -, -, -, -, -, hnothing, -⟩ := hdone.stages hinv
  have hprogram : sem.Runs anyFault (Op.maintain cfg sizing growShards).program (w, Own.idle n)
      (.ok ()) (w', l) := hrun.bind .refl
  refine ⟨(resting_runs h.resting hprogram).1, hnothing, ?_⟩
  cases hdone with
  | @idle db' hs hat =>
    have hdb : w'.db = db' := congrArg Pool.db hat.pool
    refine h.files.frame (congrArg Pool.files hat.pool) ?_
    have heq : db' = w.db := hs.eq_aborted.trans (aborted_eq_self h.nothing)
    rw [hdb, heq]
  | @applied restart new db' ts hs hne hat =>
    have hdb : w'.db = appliedEvent (applyArgs cfg sizing restart new) ts db' :=
      congrArg Pool.db hat.pool
    have hfiles : w'.files =
        (Pool.applied (applyArgs cfg sizing restart new) ts { w.pool with db := db' }).files :=
      congrArg Pool.files hat.pool
    have hwritten : ∀ x ∈ (rendered (applyArgs cfg sizing restart new) db').targets,
        w'.files x.1 = some x.2 := by
      intro x hx
      rw [hfiles]
      exact Pool.write_of_mem (targets_nodup cfg sizing restart new db') hx _
    refine .inr ⟨cfg, renderProfiles sizing.profileLimits db', hwritten _ List.mem_cons_self, ?_,
      hwritten _ (List.mem_cons_of_mem _ List.mem_cons_self)⟩
    rw [hdb]
    simp [renderProfiles, orderBy, appliedEvent, DB.addEvent, committed, DB.activateShards]

theorem Installed.configured (h : Installed sizing w) : Configured sizing w := by
  induction h with
  | empty => exact configured_initial
  | user _ hu hrun ih => exact ih.user hu hrun
  | maintained _ hrun ih => exact ih.maintained hrun

end Configured

/-! ## The plan -/

namespace Sizing
variable {slots pending usersTarget cpus memBytes rate burst : Int} {plan : Plan}

/-- Where half of the byte budget covers `n` sessions, the plan allows them exactly if its pool has
that many slots. -/
theorem le_sessionsFor_iff {n : Int} (hbudget : 2 * reserveCost * n ≤ pending) :
    n ≤ sessionsFor slots pending ↔ n ≤ slots := by
  have hcost : reserveCost = 107200 := by decide
  rw [hcost] at hbudget
  unfold sessionsFor
  rw [hcost]
  split <;> omega

/-- A plan that is returned is for one slot at least: its reserve check would have failed. -/
theorem planFor_slots (h : planFor slots usersTarget cpus memBytes rate burst = .ok plan) :
    1 ≤ slots := by
  by_contra hslots
  have hpending := mib_le_pendingBudget memBytes
  have hmib : mib = 1048576 := by decide
  have hcost : reserveCost = 107200 := by decide
  have hsessions : sessionsFor slots (pendingBudget memBytes) = slots := by
    unfold sessionsFor
    rw [hcost, if_neg (by omega)]
  have hneg : pendingBudget memBytes / slots ≤ 0 :=
    Int.ediv_nonpos_of_nonneg_of_nonpos (by omega) (by omega)
  have hfails : ¬ reserveOk (sessionsFor slots (pendingBudget memBytes)) (pendingBudget memBytes)
      (sessionsFor slots (pendingBudget memBytes) * reserveItems + defaultPendingItems) = true := by
    rw [hsessions]
    intro hok
    have := (Bool.and_eq_true_iff.1 hok).1
    rw [decide_eq_true_eq, hcost] at this
    omega
  have herror : planFor slots usersTarget cpus memBytes rate burst =
      .error (.assertion "sizing violates relay budget") :=
    if_pos hfails
  rw [h] at herror
  simp at herror

/-- What the session budget of a plan consists of. -/
theorem compute_sessions (h : compute usersTarget cpus memBytes rate burst = .ok plan) :
    1 ≤ plan.poolSlots ∧ plan.sizing.profileLimits.value "max_sessions" = 1 ∧
      plan.sizing.relayLimits.value "max_sessions_global" =
      sessionsFor plan.poolSlots (plan.sizing.relayLimits.value "max_pending_global") := by
  unfold compute computeWith at h
  split at h
  · simp at h
  split at h
  · simp at h
  rename_i slots _
  have hslots := planFor_slots h
  rw [planFor_eq hslots] at h
  split at h
  · simp at h
  · obtain rfl := Except.ok.inj h
    exact ⟨hslots, rfl, rfl⟩

end Sizing

/-- A first `maintain` that is asked for so many shards. -/
theorem exists_installed (sizing : Sizing) {n : Nat} (hpos : 0 < n) (hmax : n ≤ maxShards) :
    ∃ w cfg ps,
    Installed sizing w ∧ w.files .profiles = some (.profiles ps) ∧
      w.files .relayConfig = some (.relayConfig (renderRelayConfig cfg sizing ps.length)) ∧
      ps.length = n * shardSize ∧ w.db.slots.length = n * shardSize := by
  have hinv := resting_initial.world.1
  have hzero : (counts World.initial.db).shards = 0 := rfl
  obtain ⟨⟨out, ⟨w, l⟩, hrun⟩, hends⟩ :=
    maintain_noFault sampleConfig sizing (some (n : Int)) 0 resting_initial rfl
  rcases out with e | report
  · obtain ⟨-, ⟨-, hlimit⟩, -⟩ := hends _ w l hrun
    have hlimit : (maxShards : Int) < (counts World.initial.db).shards + (n : Int) := hlimit
    rw [hzero] at hlimit
    omega
  · obtain ⟨restart, new, db', events, hs, hdb, hnothing, hend⟩ :=
      Maintained.stages (v := World.initial.pool) hinv (hends _ w l hrun)
    have hs : Stages (some (n : Int)) World.initial.db restart new db' := hs
    have hcount : (counts w.db).shards = n := by
      have hcounts : counts w.db = counts (committed db') := by
        rw [hdb]
        rfl
      rw [hcounts, (counts_committed hinv hs).1, hs.new_eq, hzero]
      simp [newIds, wanted]
    have hslots : w.db.slots.length = n * shardSize := by
      rw [hend.layout.slots_length, ← hcount, counts_allActive hnothing.shards]
    have hreach : Installed sizing w :=
      .maintained .empty (Sem.Steps.mono (fun _ _ _ _ _ => trivial) hrun)
    rcases hreach.configured.files with ⟨hnil, -⟩ | ⟨cfg, ps, hps, hlen, hc⟩
    · rw [hnil] at hslots
      have : 0 < n * shardSize := Nat.mul_pos hpos (by decide)
      rw [List.length_nil] at hslots
      omega
    · exact ⟨w, cfg, ps, hreach, hps, hc, hlen.trans hslots, hslots⟩

/-- The plan for one user on a host of 2 GiB: 16 slots, and a byte budget for far more. -/
theorem exists_plan :
    ∃ plan, Sizing.compute 1 2 2147483648 300 64 = .ok plan ∧ plan.poolSlots = 16 ∧
    plan.sizing.relayLimits.value "max_pending_global" = 536870912 := by
  have h : ((Sizing.compute 1 2 2147483648 300 64).toOption.map fun plan =>
      (plan.poolSlots, plan.sizing.relayLimits.value "max_pending_global")) =
        some (16, 536870912) := by decide +kernel
  obtain ⟨plan, hplan, hvalues⟩ := Option.map_eq_some_iff.1 h
  obtain ⟨hslots, hpending⟩ := Prod.mk.inj hvalues
  refine ⟨plan, ?_, hslots, hpending⟩
  cases hc : Sizing.compute 1 2 2147483648 300 64 with
  | error e => simp [hc, Except.toOption] at hplan
  | ok plan' =>
    simp only [hc, Except.toOption, Option.some.injEq] at hplan
    rw [hplan]

open Sizing in
/-- Where half of the byte budget covers one session for every slot, the configuration on disk
allows them exactly if the pool has not grown past the plan's estimate. -/
theorem sessions_follow_iff {usersTarget cpus memBytes rate burst : Int} {plan : Plan} {w : World}
    {c : RelayConfig} {ps : List Profile}
    (hplan : compute usersTarget cpus memBytes rate burst = .ok plan)
    (hreach : Installed plan.sizing w) (hprofiles : w.files .profiles = some (.profiles ps))
    (hconfig : w.files .relayConfig = some (.relayConfig c))
    (hbudget : 2 * reserveCost * w.db.slots.length ≤ plan.sizing.relayLimits.value
      "max_pending_global") :
    ps.length * plan.sizing.profileLimits.value "max_sessions" ≤
      c.limits.value "max_sessions_global" ↔
      (w.db.slots.length : Int) ≤ plan.poolSlots := by
  obtain ⟨-, hone, hsessions⟩ := compute_sessions hplan
  rcases hreach.configured.files with ⟨-, hnone⟩ | ⟨cfg, ps', hps', hlen, hc⟩
  · rw [hnone] at hconfig
    simp at hconfig
  · rw [hprofiles] at hps'
    rw [hconfig] at hc
    obtain rfl : ps = ps' := by simpa using hps'
    obtain rfl : c = renderRelayConfig cfg plan.sizing ps.length := by simpa using hc
    have hsame : (renderRelayConfig cfg plan.sizing ps.length).limits.value "max_sessions_global" =
        plan.sizing.relayLimits.value "max_sessions_global" := Dict.value_set_ne (by decide) _
    rw [hsame, hone, hsessions, mul_one, hlen]
    exact le_sessionsFor_iff hbudget

open Sizing in
/-- One shard, the size of the plan. -/
theorem sessions_follow_oneShard :
    ∃ (plan : Plan) (w : World) (c : RelayConfig) (ps : List Profile),
    compute 1 2 2147483648 300 64 = .ok plan ∧ Installed plan.sizing w ∧
      w.files .profiles = some (.profiles ps) ∧
      w.files .relayConfig = some (.relayConfig c) ∧
      ps.length * plan.sizing.profileLimits.value "max_sessions" ≤
        c.limits.value "max_sessions_global" := by
  obtain ⟨plan, hplan, hslots, hpending⟩ := exists_plan
  obtain ⟨w, cfg, ps, hreach, hps, hc, -, hlen⟩ :=
    exists_installed plan.sizing (n := 1) (by decide) (by decide)
  refine ⟨plan, w, _, ps, hplan, hreach, hps, hc, (sessions_follow_iff hplan hreach hps hc ?_).2 ?_⟩
  · rw [hlen, hpending]
    decide
  · rw [hlen, hslots]
    decide

open Sizing in
/-- Two shards: the configuration allows 16 sessions to 32 profiles, in a budget for thousands. -/
theorem sessions_fallBehind : ∃ (plan : Plan) (w : World) (c : RelayConfig) (ps : List Profile),
    compute 1 2 2147483648 300 64 = .ok plan ∧ Installed plan.sizing w ∧
      w.files .profiles = some (.profiles ps) ∧
      w.files .relayConfig = some (.relayConfig c) ∧
      2 * reserveCost * w.db.slots.length ≤ plan.sizing.relayLimits.value "max_pending_global" ∧
      c.limits.value "max_sessions_global" < ps.length * plan.sizing.profileLimits.value
        "max_sessions" := by
  obtain ⟨plan, hplan, hslots, hpending⟩ := exists_plan
  obtain ⟨w, cfg, ps, hreach, hps, hc, hlen, hlen'⟩ :=
    exists_installed plan.sizing (n := 2) (by decide) (by decide)
  obtain ⟨-, hone, hsessions⟩ := compute_sessions hplan
  have hsame : (renderRelayConfig cfg plan.sizing ps.length).limits.value "max_sessions_global" =
      plan.sizing.relayLimits.value "max_sessions_global" := Dict.value_set_ne (by decide) _
  refine ⟨plan, w, _, ps, hplan, hreach, hps, hc, ?_, ?_⟩
  · rw [hlen', hpending]
    decide
  · rw [hsame, hone, hsessions, hslots, hpending, hlen]
    decide

end WebProxyPanel
