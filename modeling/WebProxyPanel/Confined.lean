import WebProxyPanel.Arguments
/-!
# What `wppctl` may run

`Allowed` lists the commands, `Usage` the argument vectors. Whatever the arguments, the tools'
output and the database are, only commands of the list are run (`main_onlyAllowed`), and an argument
vector outside the grammar runs nothing (`main_refuses`).

In the grammar of the usage text (`Valid`) a port or a shard is a decimal rendering. The patterns of
the source let a newline pass behind it, so such vectors (`NewlineUsage`) are invalid, and are run
all the same (`main_runs`); `confinement_iff` says that there are no others.
-/

namespace WebProxyPanel
namespace Ctl
open Effects

structure Command where
  tool : Tool
  args : List Word
  stdin : Option Ruleset
deriving DecidableEq, Repr

/-- The command that an action runs. -/
def Act.command? {β : Type} : Act β → Option Command
  | .exec (t := t) _ args stdin => some ⟨t, args, stdin⟩
  | _ => none

/-- A command that is in the list, with ports and shards in range. -/
inductive Allowed : Command → Prop
  | addElement {ports : List ℤ} : PortList ports →
      Allowed ⟨.nft, [.lit "add", .lit "element", .lit "inet", .lit "wpp", .lit "blocked",
        .elements ports], none⟩
  | deleteElement {ports : List ℤ} : PortList ports →
      Allowed ⟨.nft, [.lit "delete", .lit "element", .lit "inet", .lit "wpp", .lit "blocked",
        .elements ports], none⟩
  | listSet : Allowed ⟨.nft,
      [.lit "-j", .lit "list", .lit "set", .lit "inet", .lit "wpp", .lit "blocked"], none⟩
  | listCounters :
      Allowed ⟨.nft, [.lit "-j", .lit "list", .lit "counters", .lit "table", .lit "inet",
        .lit "wpp"], none⟩
  | load {ports blocked : List ℤ} :
      Allowed ⟨.nft, [.lit "-f", .lit "-"], some (buildRuleset ports blocked)⟩
  | kill {ports : List ℤ} :
      Allowed ⟨.ss, [.lit "-K", .lit "-tn", .lit "state", .lit "established", .filter ports], none⟩
  | daemonReload : Allowed ⟨.systemctl, [.lit "daemon-reload"], none⟩
  | restartRelay : Allowed ⟨.systemctl, [.lit "restart", .lit "wpp-relay.service"], none⟩
  | restartCaddy : Allowed ⟨.systemctl, [.lit "restart", .lit "wpp-caddy.service"], none⟩
  | shard {verb : String} {shard : ℤ} : verb ∈ ["restart", "start", "stop", "enable", "disable"] →
      0 ≤ shard → shard < 625 → Allowed ⟨.systemctl, [.lit verb, .shardUnit shard], none⟩
  | isActive {unit : String} : unit ∈ fixedUnits →
      Allowed ⟨.systemctl, [.lit "is-active", .lit unit], none⟩
  | isActiveShard {shard : ℤ} : 0 ≤ shard → shard < 625 →
      Allowed ⟨.systemctl, [.lit "is-active", .shardUnit shard], none⟩

/-- The argument vectors of the usage text, for these arguments as a port and as a shard. -/
inductive Usage (port shard : String → Prop) : List String → Prop
  | block {ports : List String} : ports ≠ [] → (∀ p ∈ ports, port p) → Usage port shard
      ("block" :: ports)
  | unblock {ports : List String} : ports ≠ [] → (∀ p ∈ ports, port p) → Usage port shard
      ("unblock" :: ports)
  | sync : Usage port shard ["sync"]
  | counters : Usage port shard ["counters"]
  | restart {kind : String} : kind ∈ ["relay", "caddy"] → Usage port shard ["restart", kind]
  | shard {verb n : String} : verb ∈ ["restart", "start", "stop", "enable", "disable"] → shard n →
      Usage port shard [verb, "shard", n]
  | installShardUnit {n : String} : shard n → Usage port shard ["install-shard-unit", n]
  | daemonReload : Usage port shard ["daemon-reload"]
  | status : Usage port shard ["status"]

/-- No argument is invalid or superfluous: ports are the decimal numbers from 20000 to 29999, shards
those from 0 to 624. -/
def Valid : List String → Prop :=
  Usage (fun s => ∃ n, Rendering 20000 29999 s n) (fun s => ∃ n, Rendering 0 624 s n)

/-- What `main` goes on with. -/
def Runnable : List String → Prop := Usage (Accepted 20000 29999) (Accepted 0 624)

/-- A vector that is valid but for newlines, at least one, behind its numbers. -/
def NewlineUsage (argv : List String) : Prop :=
  Runnable argv ∧ ∃ s ∈ argv, s.toList.getLast? = some '\n'

/-- Every command that is run satisfies `C`, and a result satisfies `Q`. -/
abbrev Runs {α : Type} (C : Command → Prop) (Q : α → Prop) (p : P α) : Prop :=
  Prog.Does (fun e : Exchange Act Exn => ∀ c, e.action.command? = some c → C c) Q p

/-! ## The commands of each step -/

section Steps
variable {C : Command → Prop}

theorem runs_ofExcept {α : Type} {Q : α → Prop} {x : Except Exn α} (h : ∀ a, x = .ok a → Q a) :
    Runs C Q (ofExcept x) := by
  cases x with
  | ok a => exact Prog.Does.ret (h a rfl)
  | error e => exact Prog.Does.raise

/-- An action that runs no command. -/
theorem runs_call {β : Type} {a : Act β} (h : a.command? = none) :
    Runs C (fun _ => True) (.call a) :=
  Prog.Does.call fun _ _ hc => absurd (h.symm.trans hc) (by simp)

theorem runs_tool (t : Tool) : Runs C (fun _ => True) (tool t) := by
  refine Prog.Does.bind (runs_call rfl) fun path _ => ?_
  cases path with
  | none => exact Prog.Does.raise
  | some path =>
    show Runs C _ (if path.path = "" then _ else _)
    split
    · exact Prog.Does.raise
    · exact Prog.Does.ret trivial

theorem runs_run {t : Tool} {args : List Word} {stdin : Option Ruleset} {check : Bool}
    (h : C ⟨t, args, stdin⟩) : Runs C (fun _ => True) (run t args stdin check) := by
  refine Prog.Does.bind (runs_tool t) fun path _ => ?_
  have hexec : Runs C (fun _ => True) (Prog.call (.exec path args stdin)) := by
    refine Prog.Does.call fun _ c hc => ?_
    obtain rfl := Option.some.inj hc
    exact h
  refine Prog.Does.bind hexec fun proc _ => ?_
  split
  · unfold checked
    split
    · exact Prog.Does.raise
    · exact Prog.Does.ret trivial
  · exact Prog.Does.ret trivial

theorem runs_currentBlocked (py : Python)
    (h : C ⟨.nft, [.lit "-j", .lit "list", .lit "set", .lit "inet", .lit "wpp", .lit "blocked"],
      none⟩) :
    Runs C (fun _ => True) (currentBlocked py) := by
  refine Prog.Does.bind (runs_run h) fun proc _ => ?_
  split
  · exact Prog.Does.ret trivial
  · exact Prog.Does.bind (runs_ofExcept fun _ _ => trivial) fun _ _ => Prog.Does.ret trivial

theorem runs_kill {ports : List ℤ} (h : ∀ chunk ∈ killFilters ports,
    C ⟨.ss, [.lit "-K", .lit "-tn", .lit "state", .lit "established", .filter chunk], none⟩) :
    Runs C (fun _ => True) (kill ports) := by
  refine Prog.Does.forM _ fun chunk hchunk => ?_
  refine Prog.Does.bind (runs_run (h chunk hchunk)) fun proc _ => ?_
  unfold Prog.runIf
  split
  · exact runs_call rfl
  · exact Prog.Does.ret trivial

/-- What `read_db` has checked. -/
def InRange (x : List ℤ × List ℤ × List ℤ) : Prop :=
  (∀ port ∈ x.1, slotPortBase ≤ port ∧ port ≤ slotPortLast) ∧ ∀ shard ∈ x.2.2, 0 ≤ shard ∧
    shard < maxShards

theorem checkRanges_ok {x y : List ℤ × List ℤ × List ℤ} (h : checkRanges x = .ok y) :
    x = y ∧ InRange y := by
  unfold checkRanges at h
  split at h
  · simp at h
  · rename_i hports
    split at h
    · simp at h
    · rename_i hshards
      obtain rfl := Except.ok.inj h
      exact ⟨rfl, not_not.1 hports, not_not.1 hshards⟩

theorem runs_queryDb : Runs C (fun _ => True) queryDb :=
  Prog.Does.bind (runs_call rfl) fun _ _ => Prog.Does.bind (runs_call rfl) fun _ _ =>
    Prog.Does.bind (runs_call rfl) fun _ _ => Prog.Does.ret trivial

/-- Whatever the database and the child answer, the ports and the shards returned are in range. -/
theorem runs_readDb (py : Python) : Runs C InRange (readDb py) := by
  refine Prog.Does.bind (runs_call rfl) fun owner _ => ?_
  split
  · exact Prog.Does.raise
  refine Prog.Does.bind (runs_call rfl) fun euid _ => ?_
  have hcheck : ∀ x, Runs C InRange (ofExcept (checkRanges x)) := fun x =>
    runs_ofExcept fun y hy => (checkRanges_ok hy).2
  split
  · exact Prog.Does.raise
  split
  · exact Prog.Does.bind runs_queryDb fun x _ => hcheck x
  · refine Prog.Does.bind (runs_call rfl) fun answer _ => ?_
    show Runs C _ (if answer.1 ≠ 0 then _ else _)
    split
    · exact Prog.Does.raise
    · exact Prog.Does.bind (Q := fun _ => True) (runs_ofExcept fun _ _ => trivial) fun x _ =>
        hcheck x

theorem runs_syncInput (py : Python) : Runs C (fun _ => True) (syncInput py) := by
  refine Prog.Does.bind (runs_call rfl) fun exists_ _ => ?_
  split
  · exact Prog.Does.bind (runs_readDb py) fun _ _ => Prog.Does.ret trivial
  · exact Prog.Does.ret trivial

end Steps

/-! ## Every command is in the list -/

theorem runs_cmdBlock (args : List String) : Runs Allowed (fun _ => True) (cmdBlock args) := by
  refine Prog.Does.bind (Q := PortList) (runs_ofExcept fun ports hp => (parsePorts_ok hp).1)
    fun ports hp => ?_
  exact Prog.Does.bind (runs_run (.addElement hp)) fun _ _ => runs_kill fun _ _ => .kill

theorem PortList.filter {ports : List ℤ} (h : PortList ports) {p : ℤ → Bool}
    (hne : ports.filter p ≠ []) : PortList (ports.filter p) :=
  ⟨hne, h.2.1.filter p, fun q hq => h.2.2 q (List.mem_filter.1 hq).1⟩

theorem runs_cmdUnblock (py : Python) (args : List String) :
    Runs Allowed (fun _ => True) (cmdUnblock py args) := by
  refine Prog.Does.bind (Q := PortList) (runs_ofExcept fun ports hp => (parsePorts_ok hp).1)
    fun ports hp => ?_
  refine Prog.Does.bind (runs_currentBlocked py .listSet) fun before _ => ?_
  cases before with
  | none => exact Prog.Does.raise
  | some present =>
    show Runs Allowed _ (Prog.runIf (ports.filter (· ∈ present) ≠ []) _)
    unfold Prog.runIf
    split
    · rename_i hne
      exact Prog.Does.bind (runs_run (.deleteElement (hp.filter hne))) fun _ _ =>
        Prog.Does.ret trivial
    · exact Prog.Does.ret trivial

theorem runs_cmdSync (py : Python) (args : List String) :
    Runs Allowed (fun _ => True) (cmdSync py args) := by
  unfold cmdSync
  split
  · exact Prog.Does.raise
  refine Prog.Does.bind (runs_syncInput py) fun input _ => ?_
  refine Prog.Does.bind (runs_currentBlocked py .listSet) fun before _ => ?_
  refine Prog.Does.bind (runs_run .load) fun _ _ => ?_
  cases before with
  | none => exact Prog.Does.ret trivial
  | some before => exact runs_kill fun _ _ => .kill

theorem runs_cmdCounters (py : Python) (args : List String) :
    Runs Allowed (fun _ => True) (cmdCounters py args) := by
  unfold cmdCounters
  split
  · exact Prog.Does.raise
  refine Prog.Does.bind (runs_run .listCounters) fun proc _ => ?_
  exact Prog.Does.bind (Q := fun _ => True) (runs_ofExcept fun _ _ => trivial) fun _ _ =>
    runs_call rfl

/-- A unit is the relay's, Caddy's or that of a shard in range. -/
theorem unitFor_ok {kind : String} {rest : List String} {unit : Word}
    (h : unitFor kind rest = .ok unit) :
    unit = .lit "wpp-relay.service" ∧ kind = "relay" ∧ rest = [] ∨
    unit = .lit "wpp-caddy.service" ∧ kind = "caddy" ∧ rest = [] ∨
    ∃ n shard, unit = .shardUnit shard ∧ kind = "shard" ∧ rest = [n] ∧
      Accepted 0 624 n ∧ 0 ≤ shard ∧
      shard < maxShards := by
  unfold unitFor at h
  split at h
  · rename_i hr
    exact .inl ⟨(Except.ok.inj h).symm, hr⟩
  split at h
  · rename_i hc
    exact .inr (.inl ⟨(Except.ok.inj h).symm, hc⟩)
  split at h
  · rename_i n _ _
    split at h
    · rename_i hk
      cases hp : parseShard n with
      | error e => simp [hp, Except.map] at h
      | ok shard =>
        simp only [hp, Except.map, Except.ok.injEq] at h
        obtain ⟨hlow, hhigh, hn⟩ := parseShard_reads.1 hp
        exact .inr (.inr ⟨n, shard, h.symm, hk, rfl, accepted_iff.2 ⟨shard, hlow, hhigh, hn⟩, hlow,
          Int.lt_of_le_sub_one hhigh⟩)
    · simp at h
  · simp at h

theorem unitFor_error {kind : String} {rest : List String} {e : Exn}
    (h : unitFor kind rest = .error e) : ∃ msg, e = .ctl msg := by
  unfold unitFor at h
  split at h
  · simp at h
  split at h
  · simp at h
  split at h
  · rename_i n _ _
    split at h
    · cases hp : parseShard n with
      | ok shard => simp [hp, Except.map] at h
      | error e' =>
        simp only [hp, Except.map, Except.error.injEq] at h
        exact h ▸ parseShard_error hp
    · exact ⟨_, (Except.error.inj h).symm⟩
  · exact ⟨_, (Except.error.inj h).symm⟩

theorem runs_cmdSystemctl {verb : String}
    (hverb : verb ∈ ["restart", "start", "stop", "enable", "disable"]) (args : List String) :
    Runs Allowed (fun _ => True) (cmdSystemctl verb args) := by
  cases args with
  | nil => exact Prog.Does.raise
  | cons kind rest =>
    refine Prog.Does.bind (Q := fun unit => unitFor kind rest = .ok unit)
      (runs_ofExcept fun _ h => h) fun unit hunit => ?_
    split
    · exact Prog.Does.raise
    rename_i hguard
    refine Prog.Does.bind (runs_run ?_) fun _ _ => Prog.Does.ret trivial
    rcases unitFor_ok hunit with ⟨rfl, -, -⟩ | ⟨rfl, -, -⟩ | ⟨n, shard, rfl, -, -, -, hlo, hhi⟩
    · have : verb = "restart" := by
        by_contra hne
        exact hguard ⟨by simpa [hne] using hverb, by decide⟩
      exact this ▸ .restartRelay
    · have : verb = "restart" := by
        by_contra hne
        exact hguard ⟨by simpa [hne] using hverb, by decide⟩
      exact this ▸ .restartCaddy
    · exact .shard hverb hlo hhi

/-- The units that `status` asks about. -/
def StatusUnit (unit : Word) : Prop :=
  (∃ u ∈ fixedUnits, unit = .lit u) ∨ ∃ shard, unit = .shardUnit shard ∧ 0 ≤ shard ∧
    shard < maxShards

theorem runs_statusUnits (py : Python) :
    Runs Allowed (fun units => ∀ u ∈ units, StatusUnit u) (statusUnits py) := by
  have hfixed : ∀ u ∈ fixedUnits.map Word.lit, StatusUnit u := by
    intro u hu
    obtain ⟨s, hs, rfl⟩ := List.mem_map.1 hu
    exact .inl ⟨s, hs, rfl⟩
  refine Prog.Does.bind (runs_call rfl) fun exists_ _ => ?_
  split
  · refine Prog.Does.bind (runs_readDb py) fun x hx => Prog.Does.ret fun u hu => ?_
    rcases List.mem_append.1 hu with hu | hu
    · exact hfixed u hu
    · obtain ⟨shard, hshard, rfl⟩ := List.mem_map.1 hu
      exact .inr ⟨shard, rfl, hx.2 shard hshard⟩
  · exact Prog.Does.ret hfixed

theorem runs_unitStates :
    ∀ {units : List Word}, (∀ u ∈ units, StatusUnit u) →
      Runs Allowed (fun _ => True) (unitStates units)
  | [], _ => Prog.Does.ret trivial
  | unit :: units, h => by
    have hunit : Allowed ⟨.systemctl, [.lit "is-active", unit], none⟩ := by
      rcases h unit List.mem_cons_self with ⟨u, hu, rfl⟩ | ⟨shard, rfl, hlo, hhi⟩
      · exact .isActive hu
      · exact .isActiveShard hlo hhi
    refine Prog.Does.bind (runs_run hunit) fun proc _ => ?_
    exact Prog.Does.bind (runs_unitStates fun u hu => h u (List.mem_cons_of_mem _ hu)) fun _ _ =>
      Prog.Does.ret trivial

theorem runs_cmdStatus (py : Python) (args : List String) :
    Runs Allowed (fun _ => True) (cmdStatus py args) := by
  unfold cmdStatus
  split
  · exact Prog.Does.raise
  refine Prog.Does.bind (runs_statusUnits py) fun units hunits => ?_
  exact Prog.Does.bind (runs_unitStates hunits) fun _ _ => runs_call rfl

theorem main_onlyAllowed (py : Python) (argv : List String) :
    Runs Allowed (fun _ => True) (main py argv) := by
  unfold main
  cases argv with
  | nil => exact Prog.Does.raise
  | cons command args =>
    simp only
    split
    · exact runs_cmdBlock args
    split
    · exact runs_cmdUnblock py args
    split
    · exact runs_cmdSync py args
    split
    · exact runs_cmdCounters py args
    split
    · rename_i hverb
      exact runs_cmdSystemctl hverb args
    split
    · exact runs_cmdSystemctl (by decide) _
    split
    · exact Prog.Does.bind (runs_run .daemonReload) fun _ _ => Prog.Does.ret trivial
    split
    · exact runs_cmdStatus py args
    · exact Prog.Does.raise

/-! ## Everything else is refused at once -/

/-- The program has failed before its first action. -/
def Refuses {α : Type} (p : P α) : Prop := ∃ msg, p = .raise (.ctl msg)

theorem refuses_ofExcept {α β : Type} {x : Except Exn α} {f : α → P β}
    (hok : ∀ a, x = .ok a → Refuses (f a)) (herr : ∀ e, x = .error e → ∃ msg, e = .ctl msg) :
    Refuses ((ofExcept x).bind f) := by
  cases x with
  | ok a => exact hok a rfl
  | error e =>
    obtain ⟨msg, rfl⟩ := herr e rfl
    exact ⟨msg, rfl⟩

theorem cmdSystemctl_refuses {verb : String} {args : List String}
    (h : ∀ kind ∈ ["relay", "caddy"], args = [kind] → verb ≠ "restart")
    (hverb : verb ∈ ["restart", "start", "stop", "enable", "disable"])
    (h' : ∀ n, args = ["shard", n] → ¬ Accepted 0 624 n) : Refuses (cmdSystemctl verb args) := by
  cases args with
  | nil => exact ⟨_, rfl⟩
  | cons kind rest =>
    refine refuses_ofExcept (fun unit hunit => ?_) fun e he => unitFor_error he
    split
    · exact ⟨_, rfl⟩
    rename_i hguard
    rcases unitFor_ok hunit with ⟨rfl, rfl, rfl⟩ | ⟨rfl, rfl, rfl⟩ |
        ⟨n, shard, rfl, rfl, rfl, hn, -⟩
    · exact absurd ⟨by simpa [h "relay" (by decide) rfl] using hverb, by decide⟩ hguard
    · exact absurd ⟨by simpa [h "caddy" (by decide) rfl] using hverb, by decide⟩ hguard
    · exact absurd hn (h' n rfl)

theorem main_refuses (py : Python) {argv : List String} (h : ¬ Runnable argv) :
    Refuses (main py argv) := by
  unfold main
  cases argv with
  | nil => exact ⟨_, rfl⟩
  | cons command args =>
    simp only
    split
    · rename_i hc
      subst hc
      refine refuses_ofExcept (fun ports hp => ?_) fun e he => parsePorts_error he
      exact absurd (.block (parsePorts_ok hp).2.1 (parsePorts_ok hp).2.2) h
    split
    · rename_i hc
      subst hc
      refine refuses_ofExcept (fun ports hp => ?_) fun e he => parsePorts_error he
      exact absurd (.unblock (parsePorts_ok hp).2.1 (parsePorts_ok hp).2.2) h
    split
    · rename_i hc
      subst hc
      unfold cmdSync
      rw [if_pos]
      · exact ⟨_, rfl⟩
      · rintro rfl
        exact h .sync
    split
    · rename_i hc
      subst hc
      unfold cmdCounters
      rw [if_pos]
      · exact ⟨_, rfl⟩
      · rintro rfl
        exact h .counters
    split
    · rename_i hverb
      refine cmdSystemctl_refuses ?_ hverb ?_
      · rintro kind hkind rfl rfl
        exact h (.restart hkind)
      · rintro n rfl hn
        exact h (.shard hverb hn)
    split
    · rename_i hc
      obtain ⟨rfl, hlen⟩ := hc
      obtain ⟨n, rfl⟩ := List.length_eq_one_iff.1 hlen
      refine cmdSystemctl_refuses ?_ (by decide) ?_
      · rintro kind - hargs
        simp at hargs
      · rintro m hargs hm
        obtain rfl : n = m := by simpa using hargs
        exact h (.installShardUnit hm)
    split
    · rename_i hc
      obtain ⟨rfl, rfl⟩ := hc
      exact absurd .daemonReload h
    split
    · rename_i hc
      subst hc
      unfold cmdStatus
      rw [if_pos]
      · exact ⟨_, rfl⟩
      · rintro rfl
        exact h .status
    · exact ⟨_, rfl⟩

/-! ## What is run for a number with a newline behind it -/

/-- No tool is missing, and each of them ends with this status. -/
def answering (returncode : ℤ) {β : Type} : Act β → Except Exn β
  | .which t => .ok (some ⟨"/usr/sbin/" ++ t.name⟩)
  | .exec _ _ _ => .ok ⟨returncode, "", ""⟩
  | .dbExists => .ok false
  | .lstat => .ok ⟨true, 1⟩
  | .geteuid => .ok 0
  | .select _ => .ok []
  | .child => .ok (1, [])
  | .stderr _ => .ok ()
  | .print _ => .ok ()

/-- With tools that all fail, the program has still run one of them. -/
def RunsCommand {α : Type} (p : P α) : Prop :=
  ∃ e ∈ (Prog.follow (answering 1) p).1, e.action.command? ≠ none

theorem RunsCommand.bind {α β : Type} {p : P α} (h : RunsCommand p) (f : α → P β) :
    RunsCommand (p.bind f) := by
  obtain ⟨e, he, hc⟩ := h
  exact ⟨e, Prog.follow_subset_bind _ p f he, hc⟩

theorem runsCommand_run (t : Tool) (args : List Word) (stdin : Option Ruleset) (check : Bool) :
    RunsCommand (run t args stdin check) := by
  have hpath : ("/usr/sbin/" ++ t.name) ≠ "" := by cases t <;> decide
  have hfound : Prog.follow (answering 1) (run t args stdin check) =
      (⟨.which t, .ok (some ⟨"/usr/sbin/" ++ t.name⟩)⟩ :: (Prog.follow (answering 1)
        ((if "/usr/sbin/" ++ t.name = "" then .raise (.ctl (t.name ++ " not found")) else
          .ret ⟨"/usr/sbin/" ++ t.name⟩ : P (ToolPath t)).bind
          fun path => (Prog.call (.exec path args stdin)).bind fun proc => if check then
          checked path proc else .ret proc)).1,
        (Prog.follow (answering 1)
        ((if "/usr/sbin/" ++ t.name = "" then .raise (.ctl (t.name ++ " not found")) else
          .ret ⟨"/usr/sbin/" ++ t.name⟩ : P (ToolPath t)).bind
          fun path => (Prog.call (.exec path args stdin)).bind fun proc => if check then
          checked path proc else .ret proc)).2) := rfl
  rw [if_neg hpath] at hfound
  refine ⟨⟨.exec (t := t) ⟨"/usr/sbin/" ++ t.name⟩ args stdin, .ok ⟨1, "", ""⟩⟩,
    ?_, by simp [Act.command?]⟩
  rw [hfound]
  exact .tail _ (.head _)

theorem accepted_parsePorts {args : List String} (hne : args ≠ [])
    (h : ∀ s ∈ args, Accepted 20000 29999 s) : ∃ ports, parsePorts args = .ok ports := by
  cases hports : parsePorts args with
  | ok ports => exact ⟨ports, rfl⟩
  | error e =>
    unfold parsePorts at hports
    rw [if_neg hne] at hports
    cases hm : args.mapM parsePort with
    | ok ports => simp [hm, Except.map] at hports
    | error e =>
      obtain ⟨s, hs, herror⟩ := mapM_eq_error hm
      obtain ⟨n, hn⟩ := accepted_iff.1 (h s hs)
      rw [parsePort_reads.2 hn] at herror
      cases herror

theorem runsCommand_systemctl {verb n : String} (h : Accepted 0 624 n) :
    RunsCommand (cmdSystemctl verb ["shard", n]) := by
  obtain ⟨k, hk⟩ := accepted_iff.1 h
  have hunit : unitFor "shard" [n] = .ok (.shardUnit k) := by
    simp [unitFor, parseShard_reads.2 hk, Except.map]
  have hshard : isShardUnit (.shardUnit k) = true := by
    rw [isShardUnit, List.isPrefixOf_iff_prefix, Word.text, String.toList_append,
      String.toList_append, List.append_assoc]
    exact List.prefix_append _ _
  show RunsCommand ((ofExcept (unitFor "shard" [n])).bind _)
  rw [hunit]
  show RunsCommand (if verb ∈ ["start", "stop", "enable", "disable"] ∧ ¬ isShardUnit (.shardUnit k)
      then _ else _)
  rw [if_neg (fun hguard => hguard.2 hshard)]
  exact (runsCommand_run _ _ _ _).bind _

/-- Words have no newline at the end, so it is behind a number. -/
theorem main_runs (py : Python) {argv : List String} (h : NewlineUsage argv) :
    RunsCommand (main py argv) := by
  obtain ⟨hrunnable, s, hs, hnewline⟩ := h
  have hwords : ∀ words : List String, (∀ word ∈ words, word.toList.getLast? ≠ some '\n') →
      s ∉ words :=
    fun words hno hmem => hno s hmem hnewline
  cases hrunnable with
  | block hne hports =>
    obtain ⟨ports, hok⟩ := accepted_parsePorts hne hports
    show RunsCommand ((ofExcept (parsePorts _)).bind _)
    rw [hok]
    exact (runsCommand_run _ _ _ _).bind _
  | unblock hne hports =>
    obtain ⟨ports, hok⟩ := accepted_parsePorts hne hports
    show RunsCommand ((ofExcept (parsePorts _)).bind _)
    rw [hok]
    exact ((runsCommand_run _ _ _ _).bind _).bind _
  | sync => exact absurd hs (hwords _ (by decide))
  | counters => exact absurd hs (hwords _ (by decide))
  | @restart kind hkind =>
    have hno : ∀ word ∈ ["restart", "relay", "caddy"], word.toList.getLast? ≠ some '\n' := by decide
    refine absurd hs (hwords _ fun word hword => hno word ?_)
    rcases List.mem_cons.1 hword with rfl | hword
    · exact List.mem_cons_self
    · rw [List.mem_singleton.1 hword]
      exact List.mem_cons_of_mem _ hkind
  | @shard verb n hverb hn =>
    have hmain : main py [verb, "shard", n] = cmdSystemctl verb ["shard", n] := by
      simp only [List.mem_cons, List.not_mem_nil, or_false] at hverb
      rcases hverb with rfl | rfl | rfl | rfl | rfl <;> rfl
    rw [hmain]
    exact runsCommand_systemctl hn
  | installShardUnit hn => exact runsCommand_systemctl hn
  | daemonReload => exact absurd hs (hwords _ (by decide))
  | status => exact absurd hs (hwords _ (by decide))

section Valid
variable {argv : List String} {port shard port' shard' : String → Prop}

/-- Another notion of a number, on the arguments there are. -/
theorem Usage.imp (h : Usage port shard argv) (hport : ∀ s ∈ argv, port s → port' s)
    (hshard : ∀ s ∈ argv, shard s → shard' s) : Usage port' shard' argv := by
  cases h with
  | block hne h => exact .block hne fun p hp => hport p (List.mem_cons_of_mem _ hp) (h p hp)
  | unblock hne h => exact .unblock hne fun p hp => hport p (List.mem_cons_of_mem _ hp) (h p hp)
  | sync => exact .sync
  | counters => exact .counters
  | restart hkind => exact .restart hkind
  | shard hverb h => exact .shard hverb (hshard _ (by simp) h)
  | installShardUnit h => exact .installShardUnit (hshard _ (by simp) h)
  | daemonReload => exact .daemonReload
  | status => exact .status

theorem rendering_getLast? {low high n : ℤ} {s : String} (h : Rendering low high s n)
    (hlow : 0 ≤ low) : s.toList.getLast? ≠ some '\n' := by
  obtain ⟨hn, -, rfl⟩ := h
  obtain ⟨k, rfl⟩ := Int.eq_ofNat_of_zero_le (hlow.trans hn)
  have htext : (toString (k : ℤ)).toList = Nat.toDigits 10 k := String.toList_ofList
  rw [htext]
  exact getLast?_ne_newline (Decimal.canonical_toDigits k).1

theorem accepted_rendering {low high : ℤ} {s : String} (h : Accepted low high s)
    (hno : s.toList.getLast? ≠ some '\n') : ∃ n, Rendering low high s n := by
  refine h.resolve_right ?_
  rintro ⟨n, -, -, rfl⟩
  exact hno (by simp [String.toList_append])

/-- A valid vector has no newline anywhere. -/
theorem Valid.getLast? (h : Valid argv) : ∀ s ∈ argv, s.toList.getLast? ≠ some '\n' := by
  have hwords : ∀ word ∈ ["block", "unblock", "sync", "counters", "restart", "relay", "caddy",
      "start", "stop", "enable", "disable",
      "shard", "install-shard-unit", "daemon-reload", "status"], word.toList.getLast? ≠
      some '\n' := by decide
  have hport : ∀ s, (∃ n, Rendering 20000 29999 s n) → s.toList.getLast? ≠ some '\n' := by
    rintro s ⟨n, hn⟩
    exact rendering_getLast? hn (by decide)
  have hshard : ∀ s, (∃ n, Rendering 0 624 s n) → s.toList.getLast? ≠ some '\n' := by
    rintro s ⟨n, hn⟩
    exact rendering_getLast? hn le_rfl
  have htwo : ∀ s t : String, s.toList.getLast? ≠ some '\n' → t.toList.getLast? ≠ some '\n' →
      ∀ u ∈ [s, t], u.toList.getLast? ≠ some '\n' :=
    fun s t hs ht => List.forall_mem_cons.2 ⟨hs, List.forall_mem_singleton.2 ht⟩
  unfold Valid at h
  cases h with
  | block _ h => exact List.forall_mem_cons.2 ⟨hwords _ (by simp), fun s hs => hport s (h s hs)⟩
  | unblock _ h => exact List.forall_mem_cons.2 ⟨hwords _ (by simp), fun s hs => hport s (h s hs)⟩
  | sync => exact fun s hs => hwords s (by simp_all)
  | counters => exact fun s hs => hwords s (by simp_all)
  | restart hkind =>
    refine htwo _ _ (hwords _ (by simp)) (hwords _ ?_)
    exact (by decide : ["relay", "caddy"] ⊆ _) hkind
  | shard hverb h =>
    refine List.forall_mem_cons.2 ⟨hwords _ ?_, htwo _ _ (hwords _ (by simp)) (hshard _ h)⟩
    exact (by decide : ["restart", "start", "stop", "enable", "disable"] ⊆ _) hverb
  | installShardUnit h => exact htwo _ _ (hwords _ (by simp)) (hshard _ h)
  | daemonReload => exact fun s hs => hwords s (by simp_all)
  | status => exact fun s hs => hwords s (by simp_all)

/-- What runs although it is not valid has a newline somewhere. -/
theorem newlineUsage_iff : NewlineUsage argv ↔ Runnable argv ∧ ¬ Valid argv := by
  refine and_congr_right fun hrunnable => ?_
  constructor
  · rintro ⟨s, hs, hnewline⟩ hvalid
    exact hvalid.getLast? s hs hnewline
  · intro hvalid
    by_contra hno
    have hclean : ∀ s ∈ argv, s.toList.getLast? ≠ some '\n' :=
      fun s hs hnewline => hno ⟨s, hs, hnewline⟩
    exact hvalid (hrunnable.imp (fun s hs h => accepted_rendering h (hclean s hs)) fun s hs h =>
      accepted_rendering h (hclean s hs))

end Valid

/-- Every command that `main` runs is in the list. Where an argument is invalid or superfluous,
`main` raises a `CtlError` and runs nothing, unless all that is wrong is a newline behind a number.
-/
theorem confinement_iff (py : Python) (argv : List String) :
    (∀ es out, Prog.Ran (main py argv) es out → ∀ e ∈ es, ∀ c,
      e.action.command? = some c → Allowed c) ∧
      ((¬ Valid argv → ∃ msg, ∀ es out, Prog.Ran (main py argv) es out →
        (∀ e ∈ es, e.action.command? = none) ∧ out = .error (.ctl msg)) ↔ ¬ NewlineUsage argv) := by
  refine ⟨fun es out h => (main_onlyAllowed py argv es out h).1, ?_, ?_⟩
  · intro hrefused hnewline
    obtain ⟨msg, h⟩ := hrefused (newlineUsage_iff.1 hnewline).2
    obtain ⟨e, he, hcommand⟩ := main_runs py hnewline
    exact hcommand ((h _ _ (Prog.ran_follow (answering 1) (main py argv))).1 e he)
  · intro hno hinvalid
    obtain ⟨msg, hmsg⟩ := main_refuses py fun hrunnable =>
        hno (newlineUsage_iff.2 ⟨hrunnable, hinvalid⟩)
    refine ⟨msg, fun es out h => ?_⟩
    rw [hmsg] at h
    obtain ⟨rfl, rfl⟩ := Prog.ran_raise.1 h
    exact ⟨by simp, rfl⟩

/-! ### One port, with and without a newline -/

def noPython : Python := ⟨fun _ => .error .value, fun _ => .error .value⟩

theorem newlineUsage_block : NewlineUsage ["block", "20000\n"] := by
  refine ⟨.block (by simp) fun s hs => ?_, "20000\n", by simp, by decide⟩
  rw [List.mem_singleton.1 hs]
  exact .inr ⟨20000, by decide, by decide, rfl⟩

theorem not_valid_lowPort : ¬ Valid ["block", "20000", "22"] := by
  intro h
  unfold Valid at h
  generalize hargv : ["block", "20000", "22"] = argv at h
  cases h with
  | block _ h =>
    obtain ⟨-, rfl⟩ := List.cons.inj hargv
    obtain ⟨n, hlow, hhigh, hs⟩ := h "22" (by simp)
    have hrefused : parsePort "22" = .error (.ctl "invalid port") := by decide +kernel
    rw [parsePort_reads.2 ⟨hlow, hhigh, .inl hs⟩] at hrefused
    cases hrefused
  | _ => simp at hargv

/-- A port below the slots is refused before anything is run, a port with a newline is not. -/
theorem confinement_iff_block :
    (∃ msg, ∀ es out, Prog.Ran (main noPython ["block", "20000", "22"]) es out →
      (∀ e ∈ es, e.action.command? = none) ∧ out = .error (.ctl msg)) ∧
    ¬ (¬ Valid ["block", "20000\n"] → ∃ msg, ∀ es out,
      Prog.Ran (main noPython ["block", "20000\n"]) es out →
      (∀ e ∈ es, e.action.command? = none) ∧ out = .error (.ctl msg)) := by
  refine ⟨(confinement_iff noPython _).2.2 ?_ not_valid_lowPort,
    fun h => (confinement_iff noPython _).2.1 h newlineUsage_block⟩
  rintro ⟨-, s, hs, hnewline⟩
  revert s
  decide

/-- The port with the newline is blocked, its connections are cut, and `main` returns. -/
theorem newline_blocked :
    ¬ Valid ["block", "20000\n"] ∧ ∃ es, Prog.Ran (main noPython ["block", "20000\n"]) es (.ok ()) ∧
    es.filterMap (fun e => e.action.command?) =
      [⟨.nft, [.lit "add", .lit "element", .lit "inet", .lit "wpp", .lit "blocked",
        .elements [20000]], none⟩,
       ⟨.ss, [.lit "-K", .lit "-tn", .lit "state", .lit "established", .filter [20000]],
         none⟩] := by
  have hran := Prog.ran_follow (answering 0) (main noPython ["block", "20000\n"])
  have hout : (Prog.follow (answering 0) (main noPython ["block", "20000\n"])).2 = .ok () := by
    decide +kernel
  rw [hout] at hran
  exact ⟨(newlineUsage_iff.1 newlineUsage_block).2, _, hran, by decide +kernel⟩

end Ctl
end WebProxyPanel
