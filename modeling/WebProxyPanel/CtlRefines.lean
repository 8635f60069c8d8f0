import WebProxyPanel.MachineSteps
/-!
# `wppctl` does what `System` asks of it

A run of `wppctl` among other processes, up to its end or to where the timeout of `_ctl`
(system.py:62-71) cuts it off, is a run of what `System` does in its place: one action for `block`,
`unblock` and the units (`call_refines`), three statements and a replacement of the table for `sync`
(`sync_refines`). What the caller is told is what it would have been told there.

* `Effective` — an action of `System` that has its effect, or fails with it or without it.
* `Did` — a run of `wppctl` that had this effect at one time, or none and has not returned.
* `did_block`, `did_unblock`, `did_shard` — the commands. `unblock` (ctl.py:196-203) lists the set
  and then removes what it has found.
-/

namespace WebProxyPanel
namespace Ctl
open Effects

/-! ## What `System` can see -/

/-- A world with this view. -/
def View.world (v : View) : World :=
  ⟨v.db, none, false, v.blocked, fun _ => none, v.units, false, []⟩

theorem asks_respond {β : Type} {a : Action β} {r : Except Err β} {v v' : View} {w' : World}
    {l' : Own} (c : Choice) (h : respond c a (v.world, Own.idle 0) = some (r, (w', l')))
    (hv : View.of w' = v') : asks v a r v' :=
  ⟨c, v.world, Own.idle 0, w', l', h, rfl, hv⟩

/-- An action that has this effect, or fails with it or without it. -/
structure Effective (a : Action Unit) (effect : View → View) : Prop where
  ok : ∀ v, asks v a (.ok ()) (effect v)
  failed : ∀ v message, asks v a (.error (.system message)) (effect v)
  nothing : ∀ v message, asks v a (.error (.system message)) v

def View.block (call : FwCall) (v : View) : View := { v with blocked := call.run v.blocked }
def View.enable (k : Int) (v : View) : View := { v with units := insert k v.units }
def View.disable (k : Int) (v : View) : View := { v with units := v.units.erase k }
def View.load (ports blocked : List Int) (v : View) : View :=
  { v with blocked := World.loadedSet ports blocked }

theorem effective_fwCall (call : FwCall) : Effective (.fwCall call) (View.block call) where
  ok _ := asks_respond .ok rfl rfl
  failed _ m := asks_respond (.fail m true) rfl rfl
  nothing _ m := asks_respond (.fail m false) rfl rfl

theorem effective_replace (ports blocked : List Int) :
    Effective (.ctlReplace ports blocked) (View.load ports blocked) where
  ok _ := asks_respond .ok rfl rfl
  failed _ m := asks_respond (.fail m true) rfl rfl
  nothing _ m := asks_respond (.fail m false) rfl rfl

/-- The actions on units. -/
theorem effective_plain {a : Action Unit} {f : World → World} {effect : View → View}
    (ha : ∀ c s, respond c a s = plain c f s) (hf : ∀ v : View, View.of (f v.world) = effect v) :
    Effective a effect where
  ok v := asks_respond .ok (ha _ _) (hf v)
  failed v m := asks_respond (.fail m true) (ha _ _) (hf v)
  nothing _ m := asks_respond (.fail m false) (ha _ _) rfl

/-! ## One effect -/

/-- What the others do, seen from `System`. -/
abbrev Seen (R : Machine → Machine → Prop) : View → View → Prop :=
  Relation.Map R Machine.view Machine.view

/-- A run had its effect at one time, or none and has not returned. -/
def Did (R : Machine → Machine → Prop) (effect : View → View) (m : Machine)
    (out : Option (Except Exn Unit)) (m' : Machine) : Prop :=
  (Relation.ReflTransGen R m m' ∧ out ≠ some (.ok ())) ∨
    ∃ m₁ m₂, Relation.ReflTransGen R m m₁ ∧ m₂.view = effect m₁.view ∧ Relation.ReflTransGen R m₂ m'

section Effects
variable {tools : Tools} {R : Machine → Machine → Prop} {effect : View → View} {m m' : Machine}

theorem seen_of_others (h : Relation.ReflTransGen R m m') :
    Relation.ReflTransGen (Seen R) m.view m'.view :=
  Relation.ReflTransGen.lift Machine.view (fun a b hr => ⟨a, b, hr, rfl, rfl⟩) _ _ h

/-- The caller sees a success or a failure. -/
theorem ctl_unit (io : Streams) (command : String) (others : Exn → String) (reason : String)
    (out : Option (Except Exn Unit)) :
    (out = some (.ok ()) ∧ (io.ctl command others reason out).map (fun _ => ()) = .ok ()) ∨
      out ≠ some (.ok ()) ∧ ∃ message, (io.ctl command others reason out).map (fun _ => ()) =
        .error (.system message) := by
  rcases out with _ | _ | ⟨⟨⟩⟩
  · exact .inr ⟨by simp, _, rfl⟩
  · exact .inr ⟨by simp, _, rfl⟩
  · exact .inl ⟨rfl, rfl⟩

/-- A run with one effect is a call of the action with that effect. -/
theorem Did.asked {a : Action Unit} (ha : Effective a effect) {out : Option (Except Exn Unit)}
    (h : Did R effect m out m') (io : Streams) (command : String) (others : Exn → String)
    (reason : String) :
    Among asks (Seen R) (.call a) m.view (some ((io.ctl command others reason out).map fun _ => ()))
      m'.view := by
  rcases h with ⟨hm, hout⟩ | ⟨m₁, m₂, h₁, heffect, h₂⟩
  · rcases ctl_unit io command others reason out with ⟨hok, -⟩ | ⟨-, message, hres⟩
    · exact absurd hok hout
    · rw [hres]
      exact .call (seen_of_others hm) (ha.nothing m'.view message) .refl
  · have hafter := seen_of_others h₂
    rw [heffect] at hafter
    rcases ctl_unit io command others reason out with ⟨-, hres⟩ | ⟨-, message, hres⟩
    · rw [hres]
      exact .call (seen_of_others h₁) (ha.ok m₁.view) hafter
    · rw [hres]
      exact .call (seen_of_others h₁) (ha.failed m₁.view message) hafter

/-- A command that runs one tool and then only reads. -/
theorem did_run {s s' : Station} {t : Tool} {args : List Word} {stdin : Option Ruleset}
    {rest : Proc → P Unit} {out : Option (Except Exn Unit)} (hrest : ∀ proc, (rest proc).Only Reads)
    (heffect : ∀ m proc m', Relation.ReflTransGen R s.1 m →
      tools.Ran t (args.map Word.text) (stdin.map Ruleset.text) m proc m' →
        m'.view = effect m.view ∨ m' = m ∧ proc.returncode ≠ 0)
    (h : Among (does tools R) (beside R) ((run t args stdin true).bind rest) s out s') :
    Did R effect s.1 out s'.1 := by
  have hstopped : ∀ {out' : Option (Except Exn Proc)},
      Among (does tools R) (beside R) (run t args stdin true) s out' s' →
      out ≠ some (.ok ()) → Did R effect s.1 out s'.1 := by
    intro out' h₁ hout
    rcases among_run h₁ with ⟨hm, -⟩ | ⟨s₁, m, proc, hm, hran, hm', -⟩
    · exact .inl ⟨hm, hout⟩
    · rcases heffect _ _ _ hm hran with heff | ⟨rfl, -⟩
      · exact .inr ⟨s₁.1, m, hm, heff, hm'⟩
      · exact .inl ⟨hm.trans hm', hout⟩
  rcases among_bind h with ⟨h₁, rfl⟩ | ⟨e, h₁, rfl⟩ | ⟨proc, s₁, h₁, h₂⟩
  · exact hstopped h₁ (by simp)
  · exact hstopped h₁ (by simp)
  · rcases among_run h₁ with ⟨-, hno⟩ | ⟨s₂, m, proc', hm, hran, hm', hout⟩
    · exact absurd rfl (hno proc)
    · obtain ⟨rfl, hcode⟩ := hout proc rfl
      rcases heffect _ _ _ hm hran with heff | ⟨-, hne⟩
      · exact .inr ⟨s₂.1, m, hm, heff, hm'.trans (moved_of_reads (hrest proc) h₂)⟩
      · exact absurd (hcode rfl) hne

/-- A command that raises at once. -/
theorem did_raise {s s' : Station} {e : Exn} {out : Option (Except Exn Unit)}
    (h : Among (does tools R) (beside R) (.raise e : P Unit) s out s') :
    Did R effect s.1 out s'.1 := by
  obtain ⟨hr, rfl | rfl⟩ := among_raise.1 h <;> exact .inl ⟨moved_of_beside hr, by simp⟩

end Effects

/-! ## Blocking -/

section Commands
variable {tools : Tools} (ht : tools.Lawful) {R : Machine → Machine → Prop}
  {floats : List Char → Bool × Except Exn Int}
  {intOf : String → Except Exn Int} {s s' : Station} {out : Option (Except Exn Unit)}
include ht

theorem did_block {ports : List Int}
    (h : Among (does tools R) (beside R) (main (loads floats intOf) ("block" :: ports.map toString))
      s out s') :
    Did R (View.block (.block ports)) s.1 out s'.1 := by
  have hmain : main (loads floats intOf) ("block" :: ports.map toString) =
      cmdBlock (ports.map toString) := rfl
  rw [hmain, cmdBlock] at h
  cases hp : parsePorts (ports.map toString) with
  | error e =>
    rw [hp] at h
    exact did_raise h
  | ok xs =>
    obtain ⟨hxs, hne, hpos⟩ := parsePorts_toString hp
    rw [hp] at h
    refine did_run (fun _ => reads_kill xs) ?_ h
    rintro m proc m' - ⟨f, hnft, rfl⟩
    by_cases hcode : proc.returncode = 0
    · obtain ⟨g, hg, rfl⟩ := ht.add hnft hcode (readElements_text hne hpos)
      refine .inl ?_
      simp only [Machine.view, View.block, FwCall.run, hg, Option.getD_some, hxs]
    · rw [ht.fails hnft hcode]
      exact .inr ⟨rfl, hcode⟩

/-- Between the listing and the removal nobody else may block one of the ports. -/
theorem did_unblock {ports : List Int}
    (hR : ∀ m m', R m m' → ∀ p ∈ ports, p ∈ m'.view.blocked → p ∈ m.view.blocked)
    (h : Among (does tools R) (beside R)
      (main (loads floats intOf) ("unblock" :: ports.map toString)) s out s') :
    Did R (View.block (.unblock ports)) s.1 out s'.1 := by
  have hrely : ∀ {m m'}, Relation.ReflTransGen R m m' → ∀ p ∈ ports, p ∈ m'.view.blocked →
      p ∈ m.view.blocked := by
    intro m m' hr p hp
    induction hr with
    | refl => exact id
    | tail _ hs ih => exact fun hb => ih (hR _ _ hs p hp hb)
  have hmain : main (loads floats intOf) ("unblock" :: ports.map toString) =
      cmdUnblock (loads floats intOf) (ports.map toString) := rfl
  rw [hmain, cmdUnblock] at h
  cases hp : parsePorts (ports.map toString) with
  | error e =>
    rw [hp] at h
    exact did_raise h
  | ok xs =>
    obtain ⟨hxs, -, hpos⟩ := parsePorts_toString hp
    have hmem : ∀ p, p ∈ xs ↔ p ∈ ports := fun p => by
      rw [← List.mem_toFinset, hxs, List.mem_toFinset]
    rw [hp, ofExcept, Prog.bind_eq, Prog.ret_bind] at h
    rcases among_bind h with ⟨h₁, rfl⟩ | ⟨e, h₁, rfl⟩ | ⟨present, s₁, h₁, h₂⟩
    · exact .inl ⟨(among_currentBlocked ht h₁).1, by simp⟩
    · exact .inl ⟨(among_currentBlocked ht h₁).1, by simp⟩
    obtain ⟨hm, hpresent⟩ := among_currentBlocked ht h₁
    cases present with
    | none =>
      obtain ⟨hr, rfl | rfl⟩ := among_raise.1 h₂ <;>
          exact .inl ⟨hm.trans (moved_of_beside hr), by simp⟩
    | some present =>
      obtain ⟨m₀, g, hm₀, hg, hset, hm₁⟩ := hpresent present rfl
      have hin : ∀ p, p ∈ present ↔ p ∈ m₀.view.blocked := by
        intro p
        rw [← List.mem_toFinset, hset, Machine.view, hg, Option.getD_some]
      by_cases hremove : xs.filter (· ∈ present) = []
      · -- nothing to remove, at the time of the listing
        have hprog : (Prog.runIf (xs.filter (· ∈ present) ≠ []) (do
            let _ ← run .nft [.lit "delete", .lit "element", .lit "inet", .lit "wpp",
                .lit "blocked", .elements (xs.filter (· ∈ present))] none true
            pure ()) : P Unit) = .ret () := if_neg (not_not.2 hremove)
        simp only [hprog] at h₂
        have hsame : m₀.view = View.block (.unblock ports) m₀.view := by
          have hdisj : m₀.view.blocked \ ports.toFinset = m₀.view.blocked := by
            ext p
            rw [Finset.mem_sdiff, and_iff_left_iff_imp]
            intro hpb hpp
            have hnot := List.filter_eq_nil_iff.1 hremove p ((hmem p).2 (List.mem_toFinset.1 hpp))
            exact hnot (decide_eq_true ((hin p).2 hpb))
          simp only [View.block, FwCall.run, hdisj]
        exact .inr ⟨m₀, m₀, hm₀, hsame, hm₁.trans (moved_of_beside (among_ret.1 h₂).1)⟩
      · have hprog : (Prog.runIf (xs.filter (· ∈ present) ≠ []) (do
            let _ ← run .nft [.lit "delete", .lit "element", .lit "inet", .lit "wpp",
                .lit "blocked", .elements (xs.filter (· ∈ present))] none true
            pure ()) : P Unit) = (run .nft [.lit "delete", .lit "element", .lit "inet", .lit "wpp",
              .lit "blocked",
              .elements (xs.filter (· ∈ present))] none true).bind fun _ => .ret () :=
                if_pos hremove
        simp only [hprog] at h₂
        have hdid : Did R (View.block (.unblock ports)) s₁.1 out s'.1 := by
          have hrest : ∀ proc : Proc, ((fun _ => .ret () : Proc → P Unit) proc).Only Reads :=
            fun _ => trivial
          refine did_run hrest ?_ h₂
          rintro m proc m' hm₂ ⟨f, hnft, rfl⟩
          by_cases hcode : proc.returncode = 0
          · obtain ⟨g', hg', rfl⟩ :=
              ht.delete hnft hcode (readElements_text hremove fun p hp' =>
              hpos p (List.mem_of_mem_filter hp'))
            refine .inl ?_
            have hdiff : g' \ (xs.filter (· ∈ present)).toFinset = g' \ ports.toFinset := by
              ext p
              simp only [Finset.mem_sdiff, List.mem_toFinset, List.mem_filter,
                decide_eq_true_eq, hmem, hin]
              refine and_congr_right fun hpg => not_congr (and_iff_left_of_imp fun hpp => ?_)
              refine hrely (hm₁.trans hm₂) p hpp ?_
              rw [Machine.view, hg', Option.getD_some]
              exact hpg
            simp only [Machine.view, View.block, FwCall.run, hg', Option.getD_some, hdiff]
          · rw [ht.fails hnft hcode]
            exact .inr ⟨rfl, hcode⟩
        rcases hdid with ⟨hmoved, hout⟩ | ⟨m₁, m₂, h₁', heff, h₂'⟩
        · exact .inl ⟨hm.trans hmoved, hout⟩
        · exact .inr ⟨m₁, m₂, hm.trans h₁', heff, h₂'⟩

omit ht in
/-- A command of `systemctl` on a shard. -/
theorem did_shard {effect : View → View} {verb : String} {k : Int}
    (hverb : verb ∈ ["restart", "start", "stop", "enable", "disable"])
    (heffect : ∀ m proc m', tools.Ran .systemctl [verb, (Word.shardUnit k).text] none m proc m' →
      m'.view = effect m.view ∨ m' = m ∧ proc.returncode ≠ 0)
    (h : Among (does tools R) (beside R) (main (loads floats intOf) [verb, "shard", toString k]) s
      out s') : Did R effect s.1 out s'.1 := by
  have hmain : main (loads floats intOf) [verb, "shard", toString k] =
      cmdSystemctl verb ["shard", toString k] := by
    simp only [List.mem_cons, List.not_mem_nil, or_false] at hverb
    rcases hverb with rfl | rfl | rfl | rfl | rfl <;> rfl
  have hunit : unitFor "shard" [toString k] = (parseShard (toString k)).map .shardUnit := by
    simp [unitFor]
  rw [hmain, cmdSystemctl, hunit] at h
  cases hk : parseShard (toString k) with
  | error e =>
    rw [hk] at h
    exact did_raise h
  | ok q =>
    obtain rfl := parseShard_toString hk
    have hshard : isShardUnit (.shardUnit q) = true := by
      simp only [isShardUnit, Word.text, List.isPrefixOf_iff_prefix, String.toList_append,
        List.append_assoc]
      exact List.prefix_append _ _
    rw [hk, Except.map, ofExcept, Prog.bind_eq, Prog.ret_bind, if_neg (fun hc => hc.2 hshard)] at h
    have hrest : ∀ proc : Proc, ((fun _ => .ret () : Proc → P Unit) proc).Only Reads :=
      fun _ => trivial
    exact did_run hrest (fun m proc m' _ hran => heffect m proc m' hran) h

/-! ## Calls of `System` -/

/-- The methods of `System` with one action (system.py:73-79, :91-107). -/
inductive SystemCall where
  | fwCall (call : FwCall)
  | restartRelay
  | restartShard (k : Int)
  | stopShard (k : Int)
  | enableShard (k : Int)
  | disableShard (k : Int)

def SystemCall.action : SystemCall → Action Unit
  | .fwCall call => .fwCall call
  | .restartRelay => .restartRelay
  | .restartShard k => .restartShard k
  | .stopShard k => .stopShard k
  | .enableShard k => .enableShard k
  | .disableShard k => .disableShard k

/-- The first argument of `_ctl`, and the others. -/
def SystemCall.command : SystemCall → String
  | .fwCall (.block _) => "block"
  | .fwCall (.unblock _) => "unblock"
  | .restartRelay | .restartShard _ => "restart"
  | .stopShard _ => "stop"
  | .enableShard _ => "enable"
  | .disableShard _ => "disable"

def SystemCall.args : SystemCall → List String
  | .fwCall call => call.ports.map toString
  | .restartRelay => ["relay"]
  | .restartShard k | .stopShard k | .enableShard k | .disableShard k => ["shard", toString k]

def SystemCall.opens : SystemCall → List Int
  | .fwCall call => call.opens
  | _ => []

omit ht in
theorem moved_systemctl {m m' : Machine} {u : Finset Int} (hm : m' = { m with units := u })
    {effect : View → View} (hu : { m.view with units := u } = effect m.view) :
    m'.view = effect m.view := by
  rw [hm, ← hu]
  rfl

/-- What one of the calls does to the machine. -/
theorem did_call (call : SystemCall)
    (hR : ∀ m m', R m m' → ∀ p ∈ call.opens, p ∈ m'.view.blocked → p ∈ m.view.blocked)
    (h : Among (does tools R) (beside R) (main (loads floats intOf) (call.command :: call.args)) s
      out s') :
    ∃ effect, Effective call.action effect ∧ Did R effect s.1 out s'.1 := by
  have hkeep : ∀ {verb unit : String} {m : Machine} {proc : Proc} {m' : Machine}, verb = "restart" ∨
      verb = "stop" →
      tools.Ran .systemctl [verb, unit] none m proc m' → m'.view = id m.view ∨ m' = m ∧
      proc.returncode ≠ 0 := by
    rintro verb unit m proc m' hverb ⟨u, hran, hm⟩
    exact .inl (moved_systemctl hm (by rw [ht.others hverb hran]; rfl))
  have hverbs : "enable" ∈ ["restart", "start", "stop", "enable", "disable"] ∧
      "disable" ∈ ["restart", "start", "stop", "enable", "disable"] := by
    decide
  cases call with
  | fwCall call =>
    cases call with
    | block ports => exact ⟨_, effective_fwCall _, did_block ht h⟩
    | unblock ports => exact ⟨_, effective_fwCall _, did_unblock ht hR h⟩
  | restartRelay =>
    have hmain : main (loads floats intOf) ["restart", "relay"] =
        (run .systemctl [.lit "restart", .lit "wpp-relay.service"] none true).bind fun _ =>
        .ret () := rfl
    have hrest : ∀ proc : Proc, ((fun _ => .ret () : Proc → P Unit) proc).Only Reads :=
      fun _ => trivial
    refine ⟨id, effective_plain (f := id) (fun _ _ => rfl) (fun _ => rfl), ?_⟩
    exact did_run hrest (fun m proc m' _ hran => hkeep (.inl rfl) hran) (hmain ▸ h)
  | restartShard k =>
    exact ⟨id, effective_plain (f := id) (fun _ _ => rfl) (fun _ => rfl),
      did_shard (by decide) (fun m proc m' hran => hkeep (.inl rfl) hran) h⟩
  | stopShard k =>
    exact ⟨id, effective_plain (f := id) (fun _ _ => rfl) (fun _ => rfl),
      did_shard (by decide) (fun m proc m' hran => hkeep (.inr rfl) hran) h⟩
  | enableShard k =>
    refine ⟨View.enable k, effective_plain (f := fun w => w.setUnits (insert k w.units))
      (fun _ _ => rfl) (fun _ => rfl), did_shard hverbs.1 ?_ h⟩
    rintro m proc m' ⟨u, hran, hm⟩
    rcases ht.enable hran with hu | ⟨hu, hcode⟩
    · exact .inl (moved_systemctl hm (by rw [hu]; rfl))
    · exact .inr ⟨by rw [hm, hu], hcode⟩
  | disableShard k =>
    refine ⟨View.disable k, effective_plain (f := fun w => w.setUnits (w.units.erase k))
      (fun _ _ => rfl) (fun _ => rfl), did_shard hverbs.2 ?_ h⟩
    rintro m proc m' ⟨u, hran, hm⟩
    rcases ht.disable hran with hu | ⟨hu, hcode⟩
    · exact .inl (moved_systemctl hm (by rw [hu]; rfl))
    · exact .inr ⟨by rw [hm, hu], hcode⟩

/-! ## `sync` -/

/-- The table that is loaded is the one that `System` says. -/
theorem ran_load {ports blocked : List Int} (hports : ∀ p ∈ ports, 0 ≤ p) {m m' : Machine}
    {proc : Proc}
    (h : tools.Ran .nft (([.lit "-f", .lit "-"] : List Word).map Word.text)
      ((some (buildRuleset ports blocked)).map Ruleset.text) m proc m') :
    m'.view = View.load ports blocked m.view ∨ m' = m ∧ proc.returncode ≠ 0 := by
  obtain ⟨f, hnft, rfl⟩ := h
  by_cases hcode : proc.returncode = 0
  · rw [ht.load hnft hcode (readTable_text hports)]
    refine .inl ?_
    have hset : (buildRuleset ports blocked).blocked.toFinset = World.loadedSet ports blocked := by
      ext p
      rw [List.mem_toFinset, World.loadedSet, Finset.mem_inter, List.mem_toFinset,
        List.mem_toFinset, buildRuleset, mem_sortedSet, List.mem_filter,
        decide_eq_true_eq, mem_sortedSet]
    simp only [Machine.view, View.load, Option.getD_some, hset]
  · rw [ht.fails hnft hcode]
    exact .inr ⟨rfl, hcode⟩

omit ht in
/-- A sync may fail at its first statement. -/
theorem sync_fails {m m' : Machine} (hm : Relation.ReflTransGen R m m') (message : String) :
    Among asks (Seen R) syncFirewall m.view (some (.error (.system message))) m'.view :=
  .bind_error (.call .refl (asks_respond (.fail message false) rfl rfl) (seen_of_others hm))

omit ht in
/-- Three statements at three times, and the new table later still. -/
theorem sync_runs {m a m' : Machine} {ports blocked shards : List Int}
    (hread : WasRead R m (ports, blocked, shards) a) (hrange : InRange (ports, blocked, shards))
    {r : Except Err Unit}
    (hload : Among asks (Seen R) (.call (.ctlReplace ports blocked)) a.view (some r) m'.view) :
    Among asks (Seen R) syncFirewall m.view (some r) m'.view := by
  obtain ⟨m₁, m₂, m₃, h₁, rfl, h₂, rfl, h₃, rfl, h⟩ := hread
  have hselect : ∀ (f : DB → List Int) {m m₁ : Machine}, Relation.ReflTransGen R m m₁ →
      Among asks (Seen R) (.call (.ctlSelect f)) m.view (some (.ok (f m₁.db))) m₁.view :=
    fun f m m₁ hr => .call (seen_of_others hr) (asks_respond .ok rfl rfl) .refl
  have hcurrent : Among asks (Seen R) (.call .ctlCurrent) m₃.view
      (some (.ok m₃.view.blocked)) a.view :=
    .call .refl (asks_respond .ok rfl rfl) (seen_of_others h)
  have hports : (WebProxyPanel.allPorts m₁.db).all portInRange = true := by
    rw [List.all_eq_true]
    intro p hp
    simp only [portInRange, Bool.and_eq_true, decide_eq_true_eq]
    exact hrange.1 p hp
  have hshards : (WebProxyPanel.allShards m₃.db).all shardInRange = true := by
    rw [List.all_eq_true]
    intro k hk
    simp only [shardInRange, Bool.and_eq_true, decide_eq_true_eq]
    exact hrange.2 k hk
  refine (hselect WebProxyPanel.allPorts h₁).bind
    ((hselect WebProxyPanel.blockedPorts h₂).bind ((hselect WebProxyPanel.allShards h₃).bind ?_))
  rw [if_neg (not_not.2 hports), if_neg (not_not.2 hshards)]
  exact hcurrent.bind hload

end Commands

/-! ## Tools that do what they are asked -/

/-- What `nft` prints for a set of these ports. -/
def listing (ports : List Int) : JsonText.Datum :=
  .obj [("nftables", .arr
    [.obj [("metainfo", .obj [("version", .str "1.0.9"), ("json_schema_version", .int 1)])],
    .obj [("set", .obj (("family", .str "inet") :: ("name", .str "blocked") ::
      ("table", .str "wpp") :: ("type", .str "inet_service") ::
      ("handle", .int 2) :: if ports = [] then [] else [("elem", .arr (ports.map .int))]))]])]

def success (stdout : String) : Proc := ⟨0, stdout, ""⟩

def obliging : Tools where
  nft args stdin f proc f' :=
    (∃ text ps g, args = ["add", "element", "inet", "wpp", "blocked", text] ∧ stdin = none ∧
      readElements text = some ps ∧ f = some g ∧ proc = success "" ∧ f' = some (g ∪ ps.toFinset)) ∨
    (∃ text ps g, args = ["delete", "element", "inet", "wpp", "blocked", text] ∧ stdin = none ∧
      readElements text = some ps ∧ f = some g ∧
      ps.toFinset ⊆ g ∧ proc = success "" ∧ f' = some (g \ ps.toFinset)) ∨
    (∃ ports, args = ["-j", "list", "set", "inet", "wpp", "blocked"] ∧ stdin = none ∧
      f = some ports.toFinset ∧ proc = success (String.ofList (dumps (listing ports))) ∧ f' = f) ∨
    (∃ script xs, args = ["-f", "-"] ∧ stdin = some script ∧ readTable script = some xs ∧
      proc = success "" ∧ f' = some xs.toFinset)
  systemctl args u proc u' := proc = success "" ∧
    ((∃ k, args = ["enable", (Word.shardUnit k).text] ∧ u' = insert k u) ∨
      (∃ k, args = ["disable", (Word.shardUnit k).text] ∧ u' = u.erase k) ∨
      ∃ verb unit, args = [verb, unit] ∧ verb ≠ "enable" ∧ verb ≠ "disable" ∧ u' = u)

theorem exact_listing (ports : List Int) : (listing ports).Exact := by
  unfold listing
  split <;> simp [JsonText.Datum.Exact, JsonText.ExactItems, JsonText.ExactMembers, exactItems_ints]

theorem setListing_listing (ports : List Int) : SetListing (listing ports) ports.toFinset := by
  have hports : (ports.map Element.port).flatMap Element.ports = ports := by
    induction ports with
    | nil => rfl
    | cons p ports ih => rw [List.map_cons, List.flatMap_cons, ih]; rfl
  have hvalues : (ports.map Element.port).map Element.value = ports.map .int := by
    rw [List.map_map]
    rfl
  rw [← hports]
  refine @SetListing.mk _ _
    [.obj [("metainfo", .obj [("version", .str "1.0.9"), ("json_schema_version", .int 1)])]] []
    _ rfl ?_ rfl ?_
  · rintro x hx
    rw [List.append_nil, List.mem_singleton] at hx
    exact ⟨_, hx, rfl⟩
  · rw [hports, hvalues]
    by_cases hne : ports = []
    · subst hne
      exact .inr ⟨rfl, rfl⟩
    · rw [if_neg hne]
      exact .inl rfl

theorem shardUnit_injective {k k' : Int} (h : (Word.shardUnit k).text = (Word.shardUnit k').text) :
    k = k' := by
  have hlists := congrArg String.toList h
  simp only [Word.text, String.toList_append, List.append_assoc, List.append_cancel_left_eq,
    List.append_cancel_right_eq] at hlists
  exact JsonText.toString_injective (String.toList_inj.1 hlists)

theorem obliging_lawful : obliging.Lawful where
  fails := by
    rintro args stdin f proc f' (⟨_, _, _, _, _, _, _, rfl, _⟩ | ⟨_, _, _, _, _, _, _, _, rfl, _⟩ |
      ⟨_, _, _, _, rfl, _⟩ | ⟨_, _, _, _, _, rfl, _⟩) hcode <;> exact absurd rfl hcode
  add := by
    rintro text f proc f' ps (⟨_, qs, g, hargs, _, hread, rfl, -, rfl⟩ | ⟨_, _, _, hargs, _⟩ |
      ⟨_, hargs, _⟩ | ⟨_, _, hargs, _⟩) _ hps
    · simp only [List.cons.injEq, and_true, true_and] at hargs
      rw [← hargs, hps] at hread
      exact ⟨g, rfl, by rw [Option.some.inj hread]⟩
    all_goals simp at hargs
  delete := by
    rintro text f proc f' ps (⟨_, _, _, hargs, _⟩ | ⟨_, qs, g, hargs, _, hread, rfl, -, -, rfl⟩ |
      ⟨_, hargs, _⟩ | ⟨_, _, hargs, _⟩) _ hps
    · simp at hargs
    · simp only [List.cons.injEq, and_true, true_and] at hargs
      rw [← hargs, hps] at hread
      exact ⟨g, rfl, by rw [Option.some.inj hread]⟩
    all_goals simp at hargs
  list := by
    rintro f proc f' (⟨_, _, _, hargs, _⟩ | ⟨_, _, _, hargs, _⟩ | ⟨ports, -, -, rfl, rfl, rfl⟩ |
      ⟨_, _, hargs, _⟩) _
    · simp at hargs
    · simp at hargs
    · have hread := @JsonText.read_write ⟨true, none⟩ _ (exact_listing ports) [] fun _ hc =>
          absurd hc List.not_mem_nil
      rw [List.append_nil] at hread
      exact ⟨rfl, ports.toFinset, listing ports,
        rfl, by rw [success, String.toList_ofList]; exact hread, setListing_listing ports⟩
    · simp at hargs
  load := by
    rintro script f proc f' xs (⟨_, _, _, hargs, _⟩ | ⟨_, _, _, hargs, _⟩ | ⟨_, hargs, _⟩ |
      ⟨_, ys, -, hscript, hread, -, rfl⟩) _ hxs
    · simp at hargs
    · simp at hargs
    · simp at hargs
    · rw [← Option.some.inj hscript, hxs] at hread
      rw [Option.some.inj hread]
  enable := by
    rintro k u proc u' ⟨-, ⟨k', hargs, rfl⟩ | ⟨_, hargs, -⟩ | ⟨_, _, hargs, hne, -⟩⟩
    · rw [shardUnit_injective (List.cons.inj (List.cons.inj hargs).2).1]
      exact .inl rfl
    · simp at hargs
    · exact absurd (List.cons.inj hargs).1.symm hne
  disable := by
    rintro k u proc u' ⟨-, ⟨_, hargs, -⟩ | ⟨k', hargs, rfl⟩ | ⟨_, _, hargs, -, hne, -⟩⟩
    · simp at hargs
    · rw [shardUnit_injective (List.cons.inj (List.cons.inj hargs).2).1]
      exact .inl rfl
    · exact absurd (List.cons.inj hargs).1.symm hne
  others := by
    rintro verb unit u proc u' hverb ⟨-, ⟨_, hargs, -⟩ | ⟨_, hargs, -⟩ | ⟨_, _, -, -, -, rfl⟩⟩
    · rw [(List.cons.inj hargs).1] at hverb
      exact absurd hverb (by decide)
    · rw [(List.cons.inj hargs).1] at hverb
      exact absurd hverb (by decide)
    · rfl

section Runs
variable {tools : Tools} {R : Machine → Machine → Prop} {m m' : Machine} {io : Streams}

/-- A tool that is there and succeeds. -/
theorem runs_run_ok {t : Tool} {args : List Word} {stdin : Option Ruleset} {check : Bool}
    {proc : Proc} (hran : tools.Ran t (args.map Word.text) (stdin.map Ruleset.text) m proc m')
    (hcode : proc.returncode = 0) :
    Among (does tools R) (beside R) (run t args stdin check) (m, io) (some (.ok proc))
      (m', io) := by
  have hpath : ("/usr/sbin/" ++ t.name) ≠ "" := by cases t <;> decide
  have hwhich : Among (does tools R) (beside R) (tool t) (m, io)
      (some (.ok ⟨"/usr/sbin/" ++ t.name⟩)) (m, io) := by
    refine .act .refl (r := .ok (some ⟨"/usr/sbin/" ++ t.name⟩)) rfl ?_
    have hfound : Among (does tools R) (beside R)
        (if ("/usr/sbin/" ++ t.name) = "" then .raise (.ctl (t.name ++ " not found")) else
        .ret ⟨"/usr/sbin/" ++ t.name⟩ : P (ToolPath t)) (m, io)
          (some (.ok ⟨"/usr/sbin/" ++ t.name⟩)) (m, io) := by
      rw [if_neg hpath]
      exact .ret .refl
    exact hfound
  have hexec : does tools R (m, io) (.exec (⟨"/usr/sbin/" ++ t.name⟩ : ToolPath t) args stdin)
      (.ok proc) (m', io) :=
    ⟨rfl, .inl ⟨proc, rfl, hran⟩⟩
  refine hwhich.bind ((Among.call .refl hexec .refl).bind ?_)
  split
  · rw [checked, if_neg (not_not.2 hcode)]
    exact .ret .refl
  · exact .ret .refl

theorem runs_kill_ok (ports : List Int) :
    Among (does tools R) (beside R) (kill ports) (m, io) (some (.ok ())) (m, io) := by
  have hone : ∀ chunk, Among (does tools R) (beside R) (killOne chunk) (m, io)
      (some (.ok ())) (m, io) := by
    intro chunk
    have hran : tools.Ran .ss
        (([.lit "-K", .lit "-tn", .lit "state", .lit "established", .filter chunk] : List Word).map
        Word.text) ((none : Option Ruleset).map Ruleset.text) m (success "") m := rfl
    exact (runs_run_ok hran rfl).bind (.ret .refl)
  unfold kill
  induction killFilters ports with
  | nil => exact .ret .refl
  | cons chunk chunks ih => exact (hone chunk).bind ih

theorem runs_currentBlocked_ok {py : Python} {text : String} {v : Json} {xs : List Int}
    (hran : tools.Ran .nft
      (([.lit "-j", .lit "list", .lit "set", .lit "inet", .lit "wpp", .lit "blocked"] :
      List Word).map Word.text) ((none : Option Ruleset).map Ruleset.text) m (success text) m)
    (hloads : py.loads text = .ok v) (hparse : parseSetElements py v = .ok xs) :
    Among (does tools R) (beside R) (currentBlocked py) (m, io) (some (.ok (some xs))) (m, io) := by
  refine (runs_run_ok hran rfl).bind ?_
  have hread : (py.loads (success text).stdout).bind (parseSetElements py) = .ok xs := by
    rw [success, hloads]
    exact hparse
  have hcode : (success text).returncode = 0 := rfl
  rw [if_neg (not_not.2 hcode), hread]
  exact .ret .refl

/-- The database is there, and the child reads it. -/
theorem runs_syncInput_ok {floats : List Char → Bool × Except Exn Int}
    {intOf : String → Except Exn Int}
    (hrange : InRange (WebProxyPanel.allPorts m.db, WebProxyPanel.blockedPorts m.db,
      WebProxyPanel.allShards m.db)) :
    Among (does tools R) (beside R) (syncInput (loads floats intOf)) (m, io)
      (some (.ok (WebProxyPanel.allPorts m.db, WebProxyPanel.blockedPorts m.db))) (m, io) := by
  have hselect : ∀ q : Query, alone tools (m, io) (.select q) (.ok (q.rows m.db)) (m, io) :=
    fun q => ⟨rfl, fun xs hxs => (Except.ok.inj hxs).symm⟩
  have hquery : Among (alone tools) (beside R) queryDb (m, io)
      (some (.ok (WebProxyPanel.allPorts m.db, WebProxyPanel.blockedPorts m.db,
        WebProxyPanel.allShards m.db))) (m, io) :=
    .act .refl (hselect .allPorts)
      (.act .refl (hselect .blockedPorts) (.act .refl (hselect .shards) (.ret .refl)))
  have hchecked : checkRanges (WebProxyPanel.allPorts m.db, WebProxyPanel.blockedPorts m.db,
      WebProxyPanel.allShards m.db) =
      .ok (WebProxyPanel.allPorts m.db, WebProxyPanel.blockedPorts m.db,
        WebProxyPanel.allShards m.db) := by
    rw [checkRanges, if_neg (not_not.2 hrange.1), if_neg (not_not.2 hrange.2)]
  have hchild : does tools R (m, io) .child
      (.ok (0, dumpPayload (WebProxyPanel.allPorts m.db, WebProxyPanel.blockedPorts m.db,
        WebProxyPanel.allShards m.db))) (m, io) :=
    ⟨.refl, fun payload hp => ⟨_, hquery, (Prod.mk.inj (Except.ok.inj hp)).2.symm⟩⟩
  have hread : Among (does tools R) (beside R) (readDb (loads floats intOf)) (m, io)
      (some (.ok (WebProxyPanel.allPorts m.db, WebProxyPanel.blockedPorts m.db,
        WebProxyPanel.allShards m.db))) (m, io) := by
    refine .act .refl (r := .ok ⟨true, 998⟩) rfl
      (.act .refl (r := .ok 0) rfl (.act .refl hchild ?_))
    have hrest : Among (does tools R) (beside R)
        ((ofExcept (readPayload (loads floats intOf) (dumpPayload
        (WebProxyPanel.allPorts m.db, WebProxyPanel.blockedPorts m.db,
          WebProxyPanel.allShards m.db)))).bind fun x => ofExcept (checkRanges x)) (m, io)
        (some (.ok (WebProxyPanel.allPorts m.db, WebProxyPanel.blockedPorts m.db,
          WebProxyPanel.allShards m.db))) (m, io) := by
      rw [readPayload_dump, ofExcept, Prog.ret_bind, hchecked]
      exact .ret .refl
    exact hrest
  exact .act .refl (r := .ok true) ⟨rfl, rfl⟩ (hread.bind (.ret .refl))

end Runs

/-- One slot, which is free. -/
def oneFree : DB :=
  { DB.empty with
    shards := [⟨0, 19000, 0, 1⟩]
    slots := [⟨1, 0, 0, 20000, "a", none, .free, none⟩] }

/-- Nobody else moves. -/
def nobody (_ _ : Machine) : Prop := False

/-- Python where no float is read, and no integer from a text. -/
def plainPython : Python := loads (fun _ => (true, .error .value)) fun _ => .error .value

/-! ## Both levels -/

section Both
variable {tools : Tools} (ht : tools.Lawful) {R : Machine → Machine → Prop}
  {floats : List Char → Bool × Except Exn Int}
  {intOf : String → Except Exn Int} {m m' : Machine} {io : Streams} {out : Option (Except Exn Unit)}
include ht

/-- `wppctl sync`, whatever moves beside it and wherever it stops, is the sync that `System` has. -/
theorem sync_refines (others : Exn → String) (reason : String)
    (h : Among (does tools R) (beside R) (main (loads floats intOf) ["sync"])
      (m, ⟨"", ""⟩) out (m', io)) :
    Among asks (Seen R) syncFirewall m.view
      (some ((io.ctl "sync" others reason out).map fun _ => ())) m'.view := by
  have hfails : Relation.ReflTransGen R m m' → out ≠ some (.ok ()) →
      Among asks (Seen R) syncFirewall m.view
      (some ((io.ctl "sync" others reason out).map fun _ => ())) m'.view := by
    intro hm hout
    rcases ctl_unit io "sync" others reason out with ⟨hok, -⟩ | ⟨-, message, hres⟩
    · exact absurd hok hout
    · rw [hres]
      exact sync_fails hm message
  have hmain : main (loads floats intOf) ["sync"] = (syncInput (loads floats intOf)).bind fun x =>
      (currentBlocked (loads floats intOf)).bind fun before =>
        (run .nft [.lit "-f", .lit "-"] (some (buildRuleset x.1 x.2)) true).bind fun _ =>
          killNew x.2 before := rfl
  rw [hmain] at h
  rcases among_bind h with ⟨h₁, rfl⟩ | ⟨e, h₁, rfl⟩ | ⟨⟨ports, blocked⟩, s₁, h₁, h⟩
  · exact hfails (moved_of_reads (reads_syncInput _) h₁) (by simp)
  · exact hfails (moved_of_reads (reads_syncInput _) h₁) (by simp)
  obtain ⟨shards, hread, hrange⟩ := among_syncInput h₁
  have hm₁ := moved_of_reads (reads_syncInput _) h₁
  rcases among_bind h with ⟨h₂, rfl⟩ | ⟨e, h₂, rfl⟩ | ⟨before, s₂, h₂, h⟩
  · exact hfails (hm₁.trans (among_currentBlocked ht h₂).1) (by simp)
  · exact hfails (hm₁.trans (among_currentBlocked ht h₂).1) (by simp)
  have hm₂ := (among_currentBlocked ht h₂).1
  have hkill : ∀ proc : Proc,
      ((fun _ => killNew blocked before : Proc → P Unit) proc).Only Reads := by
    intro proc
    cases before with
    | none => trivial
    | some known => exact reads_kill _
  have hpos : ∀ p ∈ ports, 0 ≤ p := by
    intro p hp
    have := (hrange.1 p hp).1
    unfold slotPortBase at this
    omega
  have hdid : Did R (View.load ports blocked) s₂.1 out m' :=
    did_run hkill (fun m proc m' _ hran => ran_load ht hpos hran) h
  rcases hdid with ⟨hm, hout⟩ | ⟨a, b, ha, heffect, hb⟩
  · exact hfails (hm₁.trans (hm₂.trans hm)) hout
  · exact sync_runs (hread.before hm₂) hrange
      (Did.asked (effective_replace ports blocked) (.inr ⟨a, b, ha, heffect, hb⟩) io "sync"
      others reason)

end Both

/-- The set is listed, and read again. -/
theorem runs_currentBlocked_listing (R : Machine → Machine → Prop) (db : DB) (units : Finset Int)
    (io : Streams) (ports : List Int) :
    ∃ xs, xs.toFinset = ports.toFinset ∧ Among (does obliging R) (beside R)
      (currentBlocked plainPython)
      (⟨db, some ports.toFinset, units⟩, io) (some (.ok (some xs)))
        (⟨db, some ports.toFinset, units⟩, io) := by
  have hlist : obliging.Ran .nft
      (([.lit "-j", .lit "list", .lit "set", .lit "inet", .lit "wpp", .lit "blocked"] :
      List Word).map Word.text)
      ((none : Option Ruleset).map Ruleset.text) ⟨db, some ports.toFinset, units⟩
      (success (String.ofList (dumps (listing ports)))) ⟨db, some ports.toFinset, units⟩ :=
    ⟨_, .inr (.inr (.inl ⟨ports, rfl, rfl, rfl, rfl, rfl⟩)), rfl⟩
  obtain ⟨xs, hxs, hset⟩ := @parseSetElements_listing (fun _ => (true, .error .value)) plainPython _
      _ (setListing_listing ports)
  have hloads : plainPython.loads (String.ofList (dumps (listing ports))) =
      .ok (Json.of (fun _ => (true, .error .value)) (listing ports)) := by
    rw [plainPython, loads_dumps (exact_listing ports)]
  exact ⟨xs, hset, runs_currentBlocked_ok hlist hloads hxs⟩

/-- Nothing is blocked, and the slot is free: `sync` blocks it. -/
theorem runs_sync_oneFree :
    Among (does obliging nobody) (beside nobody) (main plainPython ["sync"])
      (⟨oneFree, some ∅, ∅⟩, ⟨"", ""⟩) (some (.ok ()))
      (⟨oneFree, some {20000}, ∅⟩, ⟨"", ""⟩) := by
  have hload : obliging.Ran .nft (([.lit "-f", .lit "-"] : List Word).map Word.text)
      ((some (buildRuleset [20000] [20000])).map Ruleset.text) ⟨oneFree, some ∅, ∅⟩ (success "")
      ⟨oneFree, some {20000}, ∅⟩ :=
    ⟨_, .inr (.inr (.inr ⟨_, [20000], rfl, rfl, readTable_text (by decide), rfl, rfl⟩)), rfl⟩
  obtain ⟨xs, -, hcurrent⟩ := runs_currentBlocked_listing nobody oneFree ∅ ⟨"", ""⟩ []
  have hinput : Among (does obliging nobody) (beside nobody) (syncInput plainPython)
      (⟨oneFree, some ∅, ∅⟩, ⟨"", ""⟩) (some (.ok ([20000], [20000])))
      (⟨oneFree, some ∅, ∅⟩, ⟨"", ""⟩) := by
    have hrows : WebProxyPanel.allPorts oneFree = [20000] ∧ WebProxyPanel.blockedPorts oneFree =
        [20000] := by decide
    have h := @runs_syncInput_ok obliging nobody ⟨oneFree, some ∅, ∅⟩ ⟨"", ""⟩
        (fun _ => (true, .error .value)) (fun _ => .error .value)
      ⟨by decide, by decide⟩
    simp only [hrows] at h
    exact h
  exact hinput.bind (hcurrent.bind ((runs_run_ok hload rfl).bind (runs_kill_ok _)))

theorem sync_refines_oneFree :
    Among (does obliging nobody) (beside nobody) (main plainPython ["sync"])
      (⟨oneFree, some ∅, ∅⟩, ⟨"", ""⟩)
        (some (.ok ())) (⟨oneFree, some {20000}, ∅⟩, ⟨"", ""⟩) ∧
      Among asks (Seen nobody) syncFirewall ⟨oneFree, ∅, ∅⟩ (some (.ok ())) ⟨oneFree, {20000}, ∅⟩ :=
  ⟨runs_sync_oneFree, sync_refines obliging_lawful (fun _ => "") "TimeoutExpired" runs_sync_oneFree⟩

section Both
variable {tools : Tools} (ht : tools.Lawful) {R : Machine → Machine → Prop}
  {floats : List Char → Bool × Except Exn Int}
  {intOf : String → Except Exn Int} {m m' : Machine} {io : Streams} {out : Option (Except Exn Unit)}
include ht

/-- Each of the other calls, whatever moves beside `wppctl`, is one action: it has its effect at one
time, or it fails with it or without it. While a port is unblocked nobody else blocks it. -/
theorem call_refines (call : SystemCall)
    (hR : ∀ m m', R m m' → ∀ p ∈ call.opens, p ∈ m'.view.blocked → p ∈ m.view.blocked)
    (others : Exn → String) (reason : String)
    (h : Among (does tools R) (beside R) (main (loads floats intOf) (call.command :: call.args))
      (m, ⟨"", ""⟩) out (m', io)) :
    Among asks (Seen R) (.call call.action) m.view
      (some ((io.ctl call.command others reason out).map fun _ => ())) m'.view := by
  obtain ⟨effect, heffect, hdid⟩ := did_call ht call hR h
  exact hdid.asked heffect io call.command others reason

end Both

theorem runs_block_oneFree :
    Among (does obliging nobody) (beside nobody) (main plainPython ["block", "20000"])
      (⟨oneFree, some ∅, ∅⟩, ⟨"", ""⟩)
      (some (.ok ())) (⟨oneFree, some {20000}, ∅⟩, ⟨"", ""⟩) := by
  have hports : parsePorts ["20000"] = .ok [20000] := by
    rw [← toOption_eq_some]
    decide
  have hadd : obliging.Ran .nft
      (([.lit "add", .lit "element", .lit "inet", .lit "wpp", .lit "blocked", .elements [20000]] :
      List Word).map Word.text)
      ((none : Option Ruleset).map Ruleset.text) ⟨oneFree, some ∅, ∅⟩ (success "")
      ⟨oneFree, some {20000}, ∅⟩ :=
    ⟨_, .inl ⟨_, [20000], ∅, rfl, rfl, readElements_text (by decide) (by decide), rfl, rfl, rfl⟩,
      rfl⟩
  have hmain : main plainPython ["block", "20000"] = cmdBlock ["20000"] := rfl
  rw [hmain, cmdBlock, hports]
  exact (runs_run_ok hadd rfl).bind (runs_kill_ok _)

/-- The others only take ports out of the set. -/
def opening (m m' : Machine) : Prop := ∃ p, m' = { m with table := m.table.map (·.erase p) }

theorem blocked_of_opening {m m' : Machine} (h : opening m m') {p : Int}
    (hp : p ∈ m'.view.blocked) : p ∈ m.view.blocked := by
  obtain ⟨q, rfl⟩ := h
  obtain ⟨db, table, units⟩ := m
  cases table with
  | none => exact hp
  | some g => exact Finset.mem_of_mem_erase hp

/-- Of three blocked ports one is unblocked here, and another one by somebody else between the
listing and the removal. -/
theorem runs_unblock_threeBlocked :
    Among (does obliging opening) (beside opening) (main plainPython ["unblock", "20000"])
      (⟨oneFree, some {20000, 20001, 20002}, ∅⟩, ⟨"", ""⟩) (some (.ok ()))
        (⟨oneFree, some {20002}, ∅⟩, ⟨"", ""⟩) := by
  have hports : parsePorts ["20000"] = .ok [20000] := by
    rw [← toOption_eq_some]
    decide
  obtain ⟨xs, hset, hcurrent⟩ :=
    runs_currentBlocked_listing opening oneFree ∅ ⟨"", ""⟩ [20000, 20001, 20002]
  have hmem : (20000 : Int) ∈ xs := List.mem_toFinset.1 (hset ▸ by decide)
  have hremove : ([20000] : List Int).filter (· ∈ xs) = [20000] := by simp [hmem]
  have hother : Relation.ReflTransGen (beside opening)
      (⟨oneFree, some {20000, 20001, 20002}, ∅⟩, ⟨"", ""⟩)
      (⟨oneFree, some {20000, 20002}, ∅⟩, ⟨"", ""⟩) :=
    .single ⟨⟨20001, by simp only [Option.map_some]; congr 2⟩, rfl⟩
  have hdelete : obliging.Ran .nft
      (([.lit "delete", .lit "element", .lit "inet", .lit "wpp", .lit "blocked",
        .elements [20000]] : List Word).map Word.text)
      ((none : Option Ruleset).map Ruleset.text) ⟨oneFree, some {20000, 20002}, ∅⟩ (success "")
      ⟨oneFree, some {20002}, ∅⟩ :=
    ⟨_, .inr (.inl ⟨_, [20000], {20000, 20002}, rfl, rfl, readElements_text (by decide) (by decide),
      rfl, by decide, rfl, by decide⟩), rfl⟩
  have hmain : main plainPython ["unblock", "20000"] = cmdUnblock plainPython ["20000"] := rfl
  rw [hmain, cmdUnblock, hports]
  refine hcurrent.bind ?_
  have hrest : Prog.runIf (([20000] : List Int).filter (· ∈ xs) ≠ []) (do
      let _ ← run .nft [.lit "delete", .lit "element", .lit "inet", .lit "wpp", .lit "blocked",
        .elements (([20000] : List Int).filter (· ∈ xs))] none true
      pure ()) = (run .nft [.lit "delete", .lit "element", .lit "inet", .lit "wpp", .lit "blocked",
        .elements [20000]] none true).bind fun _ => .ret () := by
    rw [hremove]
    rfl
  simp only [hrest]
  exact Among.after hother ((runs_run_ok hdelete rfl).bind (.ret .refl))

theorem call_refines_blockAndUnblock :
    (Among (does obliging nobody) (beside nobody) (main plainPython ["block", "20000"])
        (⟨oneFree, some ∅, ∅⟩, ⟨"", ""⟩) (some (.ok ())) (⟨oneFree, some {20000}, ∅⟩, ⟨"", ""⟩) ∧
      Among asks (Seen nobody) (.call (.fwCall (.block [20000]))) ⟨oneFree, ∅, ∅⟩ (some (.ok ()))
        ⟨oneFree, {20000}, ∅⟩) ∧
    Among (does obliging opening) (beside opening) (main plainPython ["unblock", "20000"])
        (⟨oneFree, some {20000, 20001, 20002}, ∅⟩, ⟨"", ""⟩) (some (.ok ()))
          (⟨oneFree, some {20002}, ∅⟩, ⟨"", ""⟩) ∧
      Among asks (Seen opening) (.call (.fwCall (.unblock [20000])))
        ⟨oneFree, {20000, 20001, 20002}, ∅⟩ (some (.ok ()))
        ⟨oneFree, {20002}, ∅⟩ := by
  have hblock := call_refines obliging_lawful (.fwCall (.block [20000])) (fun _ _ h => h.elim)
      (fun _ => "") "TimeoutExpired"
    runs_block_oneFree
  have hunblock := call_refines obliging_lawful (.fwCall (.unblock [20000]))
      (fun _ _ h _ _ => blocked_of_opening h) (fun _ => "")
    "TimeoutExpired" runs_unblock_threeBlocked
  exact ⟨⟨runs_block_oneFree, hblock⟩, runs_unblock_threeBlocked, hunblock⟩

end Ctl
end WebProxyPanel
