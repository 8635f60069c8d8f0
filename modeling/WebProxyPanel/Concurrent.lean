import WebProxyPanel.Sequential
/-!
# Many processes and one firewall

The write lock orders the transactions, and `_sync_firewall` (pool.py:220-224) replaces the table
while holding it. The sync of `_change` after a rollback (users.py:47-52) and that of the boot unit
hold no lock: between their reads of the database and their replacement of the table others may
COMMIT (`late_sync_reopens`).

`TimelyStep` excludes just that, and firewall and database agree whenever nothing is running.
-/

namespace WebProxyPanel
open Effects

/-- What the action must not be too late for: a replacement outside a transaction for what was
committed since the reads, a COMMIT for the calls that a replacement has undone since they were
made. -/
def InTime (c : Procs) (i : Nat) {β : Type} : Action β → Prop
  | .ctlReplace ports blocked => (c.own i).inTx = false → LoadsRight c.shared c.own ports blocked
  | .commit => (c.own i).inTx = true → c.shared.overwritten = false
  | _ => True

/-- A step of some process, in time. -/
def TimelyStep (ok : Allow Action Choice State) (c c' : Procs) : Prop :=
  ∃ i, system.Step ok False i c c' ∧
    ∀ (op : Op) (β : Type) (a : Action β) (k : Except Err β → P Unit),
    c.running i = some (op, .act a k) → InTime c i a

def TimelyRun (ok : Allow Action Choice State) : Procs → Procs → Prop :=
  Relation.ReflTransGen (TimelyStep ok)

section Timely
variable {ok : Allow Action Choice State} {c c' : Procs}

theorem TimelyRun.reachable (h : TimelyRun ok c c') : system.Reachable ok False c c' :=
  Relation.ReflTransGen.mono (fun _ _ ⟨i, hs, _⟩ => ⟨i, hs⟩) _ _ h

/-- One timely step. -/
theorem FwInv.timelyStep (hr : Reached ok False c) (h : FwInv c.shared c.own)
    (hs : TimelyStep ok c c') : FwInv c'.shared c'.own := by
  obtain ⟨i, hstep, htime⟩ := hs
  cases hstep with
  | start op _ => exact h
  | finish _ => exact h
  | stop hf => exact hf.elim
  | @act op β a k r w l hrun hn =>
    have hin := htime op β a k hrun
    have hg := (good_of_reached kept_true trivial hr).guard isRely_interferes hrun
    obtain ⟨ch, hok, hp⟩ := hn
    -- of the choices only that for this action matters
    let ok' : Allow Action Choice State := fun _ {_} a s => s = (c.shared, c.own i) ∧ InTime c i a
    have hnext : sem.Next ok' (c.shared, c.own i) a r (w, l) := ⟨ch, ⟨rfl, hin⟩, hp⟩
    have hd := does_of_next (m := op.mode false) hg hnext
    refine h.does (reached_mutex hr) ⟨?_, ?_⟩ hd
    · exact fun _ ports blocked _ hok' htx => hok'.2 htx
    · exact fun htx hok' => hok'.2 htx

theorem fwInv_initial : FwInv Procs.initial.shared Procs.initial.own where
  named := by simp [Procs.initial, World.initial]
  rest := by simp [Procs.initial, World.initial, DB.empty]
  inactive := by simp [Procs.initial, Own.idle]
  holder := by simp [Procs.initial, Own.idle]

theorem TimelyRun.fwInv (h : TimelyRun ok Procs.initial c) : FwInv c.shared c.own := by
  induction h with
  | refl => exact fwInv_initial
  | tail hrun hs ih => exact ih.timelyStep (TimelyRun.reachable hrun) hs

end Timely

/-- In every run of any number of processes whose steps are in time, with any failures but that of
the sync after a rollback: when no operation is in progress, firewall and database agree. -/
theorem timely_agreement (ok : Allow Action Choice State) (hrec : Recovers ok) (c : Procs)
    (h : TimelyRun ok Procs.initial c) (hq : System.Quiet c) : Agreement c.shared := by
  have hr : Reached ok False c := h.reachable
  have hready : ∀ i, Ready ok c.shared (c.own i) := by
    intro i
    have := (good_of_reached kept_true trivial hr).sound i
    rwa [hq i] at this
  exact h.fwInv.agreement (reached_mutex hr) (fun i => (hready i).inTx) fun i =>
    (hready i).clean hrec

/-- Nothing was committed between the reads of a sync outside a transaction and its replacement, and
none of the calls of a transaction that commits was undone. -/
def prompt (c : Choice) {β : Type} (a : Action β) (s : State) : Bool :=
  recovering c a s && match a with
    | .ctlReplace ports blocked =>
      s.2.inTx || (ports = allPorts s.1.db && blocked = blockedPorts s.1.db)
    | .commit => !s.1.overwritten
    | _ => true

theorem timelyRun_of_run : ∀ {ts : List (Nat × System.Turn Op Choice)} {c c' : Procs},
    Reached (fun ch {_} a s => prompt ch a s = true) False c → system.run prompt ts c = some c' →
      TimelyRun (fun ch {_} a s => prompt ch a s = true) c c'
  | [], c, c', _, h => by
    rw [Option.some.inj h]
    exact .refl
  | (i, t) :: ts, c, c', hr, h => by
    obtain ⟨c₁, ht, hrest⟩ := Option.bind_eq_some_iff.1 h
    have hstep : system.Step (fun ch {_} a s => prompt ch a s = true) False i c c₁ :=
      System.step_of_turn ht
    refine .head ⟨i, hstep, fun op β a k hrun => ?_⟩ (timelyRun_of_run (hr.tail ⟨i, hstep⟩) hrest)
    -- the choice was allowed for this very action
    have hp : ∃ ch, prompt ch a (c.shared, c.own i) = true := by
      cases t with
      | act ch =>
        simp only [System.turn, hrun] at ht
        split at ht
        · rename_i hok
          exact ⟨ch, hok⟩
        · simp at ht
      | start op' => simp [System.turn, hrun] at ht
      | finish => simp [System.turn, hrun, Prog.outcome?] at ht
    obtain ⟨ch, hp⟩ := hp
    cases a with
    | ctlReplace ports blocked =>
      intro htx
      simp only [prompt, htx, Bool.false_or, Bool.and_eq_true, decide_eq_true_eq] at hp
      rw [hp.2.1, hp.2.2]
      exact loadsRight_now (reached_inv hr) c.own
    | commit =>
      intro _
      simp only [prompt, Bool.and_eq_true, Bool.not_eq_true'] at hp
      exact hp.2
    | _ => trivial

theorem recovers_prompt : Recovers fun c {_} a s => prompt c a s = true := by
  intro c s β a ho ha hok hr
  simp only [prompt, Bool.and_eq_true] at hok
  exact recovers_recovering c s a ho ha hok.1 hr

/-- After the installation a second process runs a sync. -/
def installThenSync : List (Nat × System.Turn Op Choice) :=
  installation ++ turns 1 .sync (succeed 5)

theorem installThenSync_runs : (∀ x ∈ installThenSync, x.1 ∈ [0, 1]) ∧
    ((system.run prompt installThenSync Procs.initial).map fun c => [0, 1].all fun i =>
      (c.running i).isNone) = some true := by
  decide +kernel

theorem timely_agreement_installThenSync :
    ∃ c : Procs, TimelyRun (fun ch {_} a s => prompt ch a s = true) Procs.initial c ∧
    System.Quiet c ∧ Agreement c.shared := by
  obtain ⟨hts, hrun⟩ := installThenSync_runs
  obtain ⟨c, hc, hnone⟩ := Option.map_eq_some_iff.1 hrun
  have hq : System.Quiet c := System.quiet_of_run hc (fun _ => rfl) hts (by simpa using hnone)
  have ht := timelyRun_of_run .refl hc
  exact ⟨c, ht, hq, timely_agreement _ recovers_prompt c ht hq⟩

/-- The boot unit's sync reads the database; a user is disabled; then the sync loads what it has
read. -/
def lateSync : List (Nat × System.Turn Op Choice) :=
  installation ++ ((1, .start .sync) :: (succeed 3).map fun c => (1, .act c)) ++
    turns 0 (.disableUser 1 "manual") (succeed 4 ++ [.inputs ⟨[0], []⟩] ++ succeed 2) ++
    ((succeed 2).map fun c => (1, .act c)) ++ [(1, .finish)]

theorem lateSync_runs : (∀ x ∈ lateSync, x.1 ∈ [0, 1]) ∧
    ((system.run recovering lateSync Procs.initial).map fun c =>
      ([0, 1].all fun i => (c.running i).isNone) && decide (¬ Agreement c.shared)) = some true := by
  decide +kernel

/-- The port of the disabled user is open, with nothing running and without a single failure. -/
theorem late_sync_reopens :
    ∃ c : Procs, Reached (fun ch {_} a s => recovering ch a s = true) False c ∧
    System.Quiet c ∧ ¬ Agreement c.shared := by
  obtain ⟨hts, hrun⟩ := lateSync_runs
  obtain ⟨c, hc, hb⟩ := Option.map_eq_some_iff.1 hrun
  rw [Bool.and_eq_true, decide_eq_true_eq] at hb
  exact ⟨c, System.reachable_of_run hc, System.quiet_of_run hc (fun _ => rfl) hts
    (by simpa using hb.1), hb.2⟩

end WebProxyPanel
