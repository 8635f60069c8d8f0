import WebProxyPanel.Confined
/-!
# What the database can make `wppctl sync` do

`read_db` checks the slot ports and the shards, but not the blocked ports. The ruleset drops those
that are not slot ports; the step that cuts connections takes the list as it is. So `sync` keeps to
the slot ports just when the blocked ports that are new to the table are among them
(`sync_confined_iff`).
-/

namespace WebProxyPanel
namespace Ctl
open Effects

/-- The ports that a word names. -/
def Word.ports : Word → List ℤ
  | .elements ports | .filter ports => ports
  | _ => []

def Ruleset.all (r : Ruleset) : List ℤ := r.ports ++ r.blocked

/-- The ports that a command names, in its arguments or in its script. -/
def Command.ports (c : Command) : List ℤ :=
  c.args.flatMap Word.ports ++ (c.stdin.map Ruleset.all).getD []

/-- All commands keep to ports of the list that lie in the range of slot ports. -/
def KeepsTo (ports : List ℤ) (es : List (Exchange Act Exn)) : Prop :=
  ∀ e ∈ es, ∀ c, e.action.command? = some c → ∀ p ∈ c.ports, slotPortBase ≤ p ∧
    p ≤ slotPortLast ∧ p ∈ ports

/-! ## The steps -/

theorem ran_ofExcept {α : Type} {x : Except Exn α} {es : List (Exchange Act Exn)}
    {out : Except Exn α} : Prog.Ran (ofExcept x) es out ↔ es = [] ∧ out = x := by
  cases x with
  | ok a => exact Prog.ran_ret
  | error e => exact Prog.ran_raise

/-- The one command that `run` runs. -/
theorem ran_run {t : Tool} {args : List Word} {stdin : Option Ruleset} {check : Bool}
    {es : List (Exchange Act Exn)} {proc : Proc}
    (h : Prog.Ran (run t args stdin check) es (.ok proc)) :
    ∃ e ∈ es, e.action.command? = some ⟨t, args, stdin⟩ := by
  rcases Prog.ran_bind.1 h with ⟨e, -, he⟩ | ⟨path, es₁, es₂, rfl, -, h₂⟩
  · simp at he
  rcases Prog.ran_bind.1 h₂ with ⟨e, -, he⟩ | ⟨proc', es₃, es₄, rfl, h₃, -⟩
  · simp at he
  rw [Prog.ran_call.1 h₃]
  exact ⟨_, List.mem_append_right _ (List.mem_append_left _ List.mem_cons_self), rfl⟩

/-- `cmd_sync` in its four steps. -/
theorem ran_cmdSync {py : Python} {es : List (Exchange Act Exn)}
    (h : Prog.Ran (cmdSync py []) es (.ok ())) :
    ∃ ports blocked before es₁ es₂ es₃ es₄, es = es₁ ++ (es₂ ++ (es₃ ++ es₄)) ∧
      Prog.Ran (syncInput py) es₁ (.ok (ports, blocked)) ∧
        Prog.Ran (currentBlocked py) es₂ (.ok before) ∧
      (∃ proc, Prog.Ran (run .nft [.lit "-f", .lit "-"] (some (buildRuleset ports blocked)) true)
        es₃ (.ok proc)) ∧
      Prog.Ran (killNew blocked before) es₄ (.ok ()) := by
  rcases Prog.ran_bind.1 h with ⟨e, -, he⟩ | ⟨⟨ports, blocked⟩, es₁, es', rfl, h₁, h'⟩
  · simp at he
  rcases Prog.ran_bind.1 h' with ⟨e, -, he⟩ | ⟨before, es₂, es', rfl, h₂, h'⟩
  · simp at he
  rcases Prog.ran_bind.1 h' with ⟨e, -, he⟩ | ⟨proc, es₃, es₄, rfl, h₃, h₄⟩
  · simp at he
  exact ⟨ports, blocked, before, es₁, es₂, es₃, es₄, rfl, h₁, h₂, ⟨proc, h₃⟩, h₄⟩

/-! ## Where the ports come from -/

/-- The slot ports that `sync` works with have been checked. -/
theorem runs_syncInput_range (C : Command → Prop) (py : Python) :
    Runs C (fun x => ∀ p ∈ x.1, slotPortBase ≤ p ∧ p ≤ slotPortLast) (syncInput py) := by
  refine Prog.Does.bind (runs_call rfl) fun exists_ _ => ?_
  split
  · exact Prog.Does.bind (runs_readDb py) fun x hx => Prog.Does.ret hx.1
  · exact Prog.Does.ret (by simp)

theorem mem_buildRuleset {ports blocked : List ℤ} {p : ℤ}
    (h : p ∈ (buildRuleset ports blocked).all) : p ∈ ports := by
  rcases List.mem_append.1 h with h | h
  · exact mem_sortedSet.1 h
  · have := (List.mem_filter.1 (mem_sortedSet.1 h)).2
    exact mem_sortedSet.1 (of_decide_eq_true this)

/-- The chunks hold what the list holds. -/
theorem mem_chunks {n : ℕ} (hn : 0 < n) {xs : List ℤ} {p : ℤ} :
    (∃ c ∈ chunks n xs, p ∈ c) ↔ p ∈ xs := by
  unfold chunks
  constructor
  · rintro ⟨c, hc, hp⟩
    obtain ⟨i, -, rfl⟩ := List.mem_map.1 hc
    exact List.mem_of_mem_drop (List.mem_of_mem_take hp)
  · intro hp
    obtain ⟨k, hk, rfl⟩ := List.mem_iff_getElem.1 hp
    have hk' : k / n * n + k % n = k := Nat.div_add_mod' k n
    have hmod : k % n < n := Nat.mod_lt k hn
    refine ⟨_, List.mem_map.2 ⟨k / n, List.mem_range.2 ?_, rfl⟩,
      List.mem_iff_getElem.2 ⟨k % n, ?_, ?_⟩⟩
    · rw [Nat.lt_iff_add_one_le, Nat.le_div_iff_mul_le hn, Nat.add_mul]
      omega
    · rw [List.length_take, List.length_drop]
      omega
    · rw [List.getElem_take, List.getElem_drop]
      simp only [hk']

theorem mem_killFilters {ports : List ℤ} {p : ℤ} :
    (∃ c ∈ killFilters ports, p ∈ c) ↔ p ∈ ports := by
  unfold killFilters
  rw [mem_chunks (by decide), Table.mem_orderBy]

/-- `kill` names every port that it is given. -/
theorem ran_kill {ports : List ℤ} {es : List (Exchange Act Exn)}
    (h : Prog.Ran (kill ports) es (.ok ())) {p : ℤ} (hp : p ∈ ports) :
    ∃ e ∈ es, ∃ c, e.action.command? = some c ∧ p ∈ c.ports := by
  obtain ⟨chunk, hchunk, hpc⟩ := mem_killFilters.2 hp
  obtain ⟨es', hsub, hran⟩ := Prog.Ran.forM h chunk hchunk
  rcases Prog.ran_bind.1 hran with ⟨e, -, he⟩ | ⟨proc, es₁, es₂, rfl, h₁, -⟩
  · simp at he
  obtain ⟨e, he, hc⟩ := ran_run h₁
  exact ⟨e, hsub (List.mem_append_left _ he), _, hc, by simpa [Command.ports, Word.ports] using hpc⟩

/-! ## Both directions -/

/-- `sync` keeps to the slot ports it has read if, and only if, every blocked port that the table
did not hold is one of them, or there was no table. -/
theorem sync_keepsTo_iff (py : Python) {es : List (Exchange Act Exn)}
    (h : Prog.Ran (cmdSync py []) es (.ok ())) :
    ∃ ports blocked before es₁ es₂ es₃, es = es₁ ++ (es₂ ++ es₃) ∧
      Prog.Ran (syncInput py) es₁ (.ok (ports, blocked)) ∧
        Prog.Ran (currentBlocked py) es₂ (.ok before) ∧
      (KeepsTo ports es ↔ ∀ known, before = some known → ∀ p ∈ blocked, p ∉ known → p ∈ ports) := by
  obtain ⟨ports, blocked, before, es₁, es₂, es₃, es₄, rfl, h₁, h₂, ⟨proc, h₃⟩, h₄⟩ := ran_cmdSync h
  refine ⟨ports, blocked, before, es₁, es₂, es₃ ++ es₄, rfl, h₁, h₂, ?_, ?_⟩
  · rintro hk known rfl p hp hnew
    have hmem : p ∈ (blocked.filter (· ∉ known)).dedup := by simp [hp, hnew]
    obtain ⟨e, he, c, hc, hpc⟩ := ran_kill h₄ hmem
    exact (hk e (by simp [he]) c hc p hpc).2.2
  · intro hnew
    obtain ⟨-, hrange⟩ := runs_syncInput_range (fun _ => True) py es₁ _ h₁
    have hrange : ∀ p ∈ ports, slotPortBase ≤ p ∧ p ≤ slotPortLast ∧ p ∈ ports := fun p hp =>
      ⟨(hrange _ rfl p hp).1, (hrange _ rfl p hp).2, hp⟩
    have hkeep₁ : KeepsTo ports es₁ := (runs_syncInput py es₁ _ h₁).1
    have hkeep₂ : KeepsTo ports es₂ :=
      (runs_currentBlocked py (by simp [Command.ports, Word.ports]) es₂ _ h₂).1
    have hkeep₃ : KeepsTo ports es₃ := by
      refine (runs_run (fun p hp => hrange p ?_) es₃ _ h₃).1
      exact @mem_buildRuleset ports blocked p (by simpa [Command.ports, Word.ports] using hp)
    have hkeep₄ : KeepsTo ports es₄ := by
      cases before with
      | none => exact (Prog.Does.ret (Q := fun _ => True) trivial es₄ _ h₄).1
      | some known =>
        refine (runs_kill (fun chunk hchunk p hp => hrange p ?_) es₄ _ h₄).1
        have hp' : p ∈ (blocked.filter (· ∉ known)).dedup :=
          mem_killFilters.1 ⟨chunk, hchunk, by simpa [Command.ports, Word.ports] using hp⟩
        simp only [List.mem_dedup, List.mem_filter, decide_eq_true_eq] at hp'
        exact hnew known rfl p hp'.1 hp'.2
    intro e he
    rcases List.mem_append.1 he with he | he
    · exact hkeep₁ e he
    rcases List.mem_append.1 he with he | he
    · exact hkeep₂ e he
    rcases List.mem_append.1 he with he | he
    · exact hkeep₃ e he
    · exact hkeep₄ e he

/-! ## A child that answers as it likes -/

/-- What `nft -j list set inet wpp blocked` prints where nothing is blocked. -/
def emptySet : String := "\x7b\"nftables\": [\x7b\"set\": \x7b\"name\": \"blocked\"\x7d\x7d]\x7d"

/-- The three lists, the second with the port of another service. -/
def foreignPort : String := "[[20000], [20000, 22], [0]]"

/-- The three lists of a pool with one slot, which is blocked. -/
def oneSlot : String := "[[20000], [20000], [0]]"

/-- `json.loads` and `int` on the texts that occur here. -/
def python : Python where
  loads s :=
    if s = emptySet then .ok (.obj [("nftables", .arr [.obj [("set", .obj [("name", .str "blocked")])]])])
    else if s = foreignPort then
      .ok (.arr [.arr [.int 20000], .arr [.int 20000, .int 22], .arr [.int 0]])
    else if s = oneSlot then .ok (.arr [.arr [.int 20000], .arr [.int 20000], .arr [.int 0]])
    else .error .value
  intOf _ := .error .value

/-- Every tool succeeds, and the child writes the given text. -/
def answers (payload : String) {β : Type} : Act β → Except Exn β
  | .which t => .ok (some ⟨"/usr/sbin/" ++ t.name⟩)
  | .exec _ _ _ => .ok ⟨0, emptySet, ""⟩
  | .dbExists => .ok true
  | .lstat => .ok ⟨true, 998⟩
  | .geteuid => .ok 0
  | .select _ => .error .sqlite
  | .child => .ok (0, payload.toList.map fun c => c.toNat.toUInt8)
  | .stderr _ | .print _ => .ok ()

theorem toOption_eq_some {α : Type} {x : Except Exn α} {a : α} :
    x.toOption = some a ↔ x = .ok a := by
  cases x <;> simp [Except.toOption]

/-- The commands of a run. -/
def commands (es : List (Exchange Act Exn)) : List Command :=
  es.filterMap fun e => e.action.command?

/-- `sync` can be made to cut the connections of port 22. -/
theorem sync_cuts_foreign : ∃ py es, Prog.Ran (cmdSync py []) es (.ok ()) ∧ ∃ e ∈ es, ∃ c : Command,
    e.action.command? = some c ∧ c.tool = .ss ∧ 22 ∈ c.ports := by
  have hout : (Prog.follow (answers foreignPort) (cmdSync python [])).2 = .ok () := by
    rw [← toOption_eq_some]
    decide +kernel
  have hcmd : ⟨.ss, [.lit "-K", .lit "-tn", .lit "state", .lit "established", .filter [22, 20000]],
      none⟩ ∈
      commands (Prog.follow (answers foreignPort) (cmdSync python [])).1 := by decide +kernel
  have hran := Prog.ran_follow (answers foreignPort) (cmdSync python [])
  rw [hout] at hran
  obtain ⟨e, he, hc⟩ := List.mem_filterMap.1 hcmd
  exact ⟨python, _, hran, e, he, _, hc, rfl, by decide⟩

theorem ran_oneSlot :
    Prog.Ran (cmdSync python []) (Prog.follow (answers oneSlot) (cmdSync python [])).1
      (.ok ()) := by
  have hout : (Prog.follow (answers oneSlot) (cmdSync python [])).2 = .ok () := by
    rw [← toOption_eq_some]
    decide +kernel
  rw [← hout]
  exact Prog.ran_follow _ _

theorem sync_oneSlot_iff : ∃ ports blocked before es₁ es₂ es₃,
    (Prog.follow (answers oneSlot) (cmdSync python [])).1 = es₁ ++ (es₂ ++ es₃) ∧
      Prog.Ran (syncInput python) es₁ (.ok (ports, blocked)) ∧
      Prog.Ran (currentBlocked python) es₂ (.ok before) ∧
      (KeepsTo ports (Prog.follow (answers oneSlot) (cmdSync python [])).1 ↔
        ∀ known, before = some known → ∀ p ∈ blocked, p ∉ known → p ∈ ports) :=
  sync_keepsTo_iff python ran_oneSlot

end Ctl
end WebProxyPanel
