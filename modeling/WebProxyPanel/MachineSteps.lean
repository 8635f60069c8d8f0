import WebProxyPanel.Machine
/-!
# Steps of `wppctl` among others

What the parts of a command do to the machine while other processes move it: an action that runs no
tool leaves it to the others, `run` (ctl.py:67-72) has the effect of the tool at one time or none,
`current_blocked` (:175-179) returns the set as it was at one time. And what the tools read of a
command line and of a script is what was written.
-/

namespace WebProxyPanel
namespace Ctl
open Effects

/-- The others may have moved the machine. -/
abbrev Moved (R : Machine → Machine → Prop) (s s' : Station) : Prop :=
  Relation.ReflTransGen R s.1 s'.1

section Steps
variable {tools : Tools} {R : Machine → Machine → Prop} {s s' : Station}

theorem moved_of_beside (h : Relation.ReflTransGen (beside R) s s') : Moved R s s' :=
  Relation.ReflTransGen.lift Prod.fst (fun _ _ hs => hs.1) _ _ h

/-- An action that runs no tool, or `ss`: it cuts connections. -/
def Reads {β : Type} (a : Act β) : Prop := ∀ c, a.command? = some c → c.tool = .ss

theorem does_reads {β : Type} {a : Act β} {r : Except Exn β} (ha : Reads a)
    (h : does tools R s a r s') : Moved R s s' := by
  cases a with
  | exec path args stdin =>
    obtain rfl := ha _ rfl
    have hsame : s'.1 = s.1 := by
      obtain ⟨-, ⟨proc, -, hran⟩ | ⟨e, -, hran | ⟨proc, hran⟩⟩⟩ := h <;> exact hran
    show Relation.ReflTransGen R s.1 s'.1
    rw [hsame]
  | child => exact moved_of_beside h.1
  | dbExists | stderr text | print out =>
    rw [h.2]
  | select q =>
    rw [h.1]
  | which t | lstat | geteuid =>
    rw [show s' = s from h]

theorem moved_of_reads {α : Type} {p : P α} {out : Option (Except Exn α)} (hp : p.Only Reads)
    (h : Among (does tools R) (beside R) p s out s') : Moved R s s' :=
  h.keeps (Moved R) (fun _ => .refl) (fun _ _ _ h₁ h₂ => h₁.trans h₂) (fun _ _ hs => .single hs.1)
    (fun _ _ _ _ ha hd => does_reads ha hd) hp

/-! ## The commands -/

theorem reads_of_none {β : Type} {a : Act β} (h : a.command? = none) : Reads a := by
  intro c hc
  rw [h] at hc
  cases hc

theorem reads_ofExcept {α : Type} (x : Except Exn α) : (ofExcept x).Only Reads := by
  cases x <;> trivial

theorem reads_tool (t : Tool) : (tool t).Only Reads := by
  refine Prog.Only.bind (Prog.Only.call (reads_of_none rfl)) fun path => ?_
  cases path with
  | none => trivial
  | some path =>
    show (if path.path = "" then _ else _ : P (ToolPath t)).Only Reads
    split <;> trivial

/-- The tool was not started, or it ran, and what `run` returns is what it has returned. -/
theorem among_run {t : Tool} {args : List Word} {stdin : Option Ruleset} {check : Bool}
    {out : Option (Except Exn Proc)}
    (h : Among (does tools R) (beside R) (run t args stdin check) s out s') :
    (Moved R s s' ∧ ∀ proc, out ≠ some (.ok proc)) ∨ ∃ s₁ m proc, Moved R s s₁ ∧
      tools.Ran t (args.map Word.text) (stdin.map Ruleset.text) s₁.1 proc m ∧
      Relation.ReflTransGen R m s'.1 ∧ ∀ proc', out = some (.ok proc') → proc' = proc ∧
        (check = true → proc.returncode = 0) := by
  rcases among_bind h with ⟨h₁, rfl⟩ | ⟨e, h₁, rfl⟩ | ⟨path, s₁, h₁, h⟩
  · exact .inl ⟨moved_of_reads (reads_tool t) h₁, by simp⟩
  · exact .inl ⟨moved_of_reads (reads_tool t) h₁, by simp⟩
  have hpath := moved_of_reads (reads_tool t) h₁
  have hafter : ∀ {proc : Proc} {s₂ : Station} {out : Option (Except Exn Proc)},
      Among (does tools R) (beside R) (if check then checked path proc else .ret proc) s₂ out s' →
        Moved R s₂ s' ∧ ∀ proc', out = some (.ok proc') → proc' = proc ∧
        (check = true → proc.returncode = 0) := by
    intro proc s₂ out h
    split at h
    · unfold checked at h
      split at h
      · obtain ⟨hr, rfl | rfl⟩ := among_raise.1 h <;> exact ⟨moved_of_beside hr, by simp⟩
      · rename_i hcode
        obtain ⟨hr, rfl | rfl⟩ := among_ret.1 h
        · exact ⟨moved_of_beside hr, by rintro proc' ⟨⟩; exact ⟨rfl, fun _ => not_not.1 hcode⟩⟩
        · exact ⟨moved_of_beside hr, by simp⟩
    · rename_i hcheck
      obtain ⟨hr, rfl | rfl⟩ := among_ret.1 h
      · exact ⟨moved_of_beside hr, by rintro proc' ⟨⟩; exact ⟨rfl, fun hc => absurd hc hcheck⟩⟩
      · exact ⟨moved_of_beside hr, by simp⟩
  cases h with
  | cut hr => exact .inl ⟨hpath.trans (moved_of_beside hr), by simp⟩
  | act hr hd hk =>
    rename_i s₂ s₃ r
    have hmoved : Moved R s s₂ := hpath.trans (moved_of_beside hr)
    obtain ⟨-, ⟨proc, rfl, hran⟩ | ⟨e, rfl, hran⟩⟩ := hd
    · obtain ⟨hend, hout⟩ := hafter hk
      exact .inr ⟨s₂, s₃.1, proc, hmoved, hran, hend, hout⟩
    · obtain ⟨hend, hout⟩ := among_raise.1 hk
      have hnot : ∀ proc, out ≠ some (.ok proc) := by
        rintro proc rfl
        rcases hout with hout | hout <;> cases hout
      rcases hran with hsame | ⟨proc, hran⟩
      · refine .inl ⟨hmoved.trans (hsame ▸ moved_of_beside hend), hnot⟩
      · exact .inr ⟨s₂, s₃.1, proc, hmoved, hran, moved_of_beside hend, fun proc' hp =>
          absurd hp (hnot proc')⟩

theorem reads_kill (ports : List Int) : (kill ports).Only Reads := by
  refine Prog.Only.forM (fun chunk => ?_) _
  refine Prog.Only.bind (Prog.Only.bind (reads_tool .ss) fun path => ?_) fun proc =>
    Prog.Only.runIf (Prog.Only.call (reads_of_none rfl))
  refine Prog.Only.bind (Prog.Only.call fun c hc => ?_) fun proc => trivial
  rw [← Option.some.inj hc]

/-- The three lists were read one after the other, each from the database as it was then. -/
def WasRead (R : Machine → Machine → Prop) (m : Machine) (x : List Int × List Int × List Int)
    (m' : Machine) : Prop :=
  ∃ m₁ m₂ m₃, Relation.ReflTransGen R m m₁ ∧ x.1 = WebProxyPanel.allPorts m₁.db ∧
    Relation.ReflTransGen R m₁ m₂ ∧
    x.2.1 = WebProxyPanel.blockedPorts m₂.db ∧ Relation.ReflTransGen R m₂ m₃ ∧
    x.2.2 = WebProxyPanel.allShards m₃.db ∧ Relation.ReflTransGen R m₃ m'

/-- `_query_db`, whether the process itself runs it or its child. -/
theorem among_queryDb {D : Answers Act Exn Station}
    (hD : ∀ s q (r : Except Exn (List Int)) s', D s (.select q) r s' →
      alone tools s (.select q) r s')
    {x : List Int × List Int × List Int} (h : Among D (beside R) queryDb s (some (.ok x)) s') :
    WasRead R s.1 x s'.1 := by
  have hselect : ∀ {q : Query} {xs : List Int} {s s' : Station},
      Among D (beside R) (.call (.select q)) s (some (.ok xs)) s' →
      ∃ m, Relation.ReflTransGen R s.1 m ∧ xs = q.rows m.db ∧ Relation.ReflTransGen R m s'.1 := by
    intro q xs s s' h
    obtain ⟨s₁, s₂, hr, hd, hr'⟩ := among_call_ok h
    obtain ⟨rfl, hxs⟩ := hD _ _ _ _ hd
    exact ⟨s₂.1, moved_of_beside hr, hxs xs rfl, moved_of_beside hr'⟩
  obtain ⟨ports, s₁, h₁, h⟩ := among_bind_ok h
  obtain ⟨blocked, s₂, h₂, h⟩ := among_bind_ok h
  obtain ⟨shards, s₃, h₃, h⟩ := among_bind_ok h
  obtain ⟨hr, hx | hx⟩ := among_ret.1 h
  · rw [Except.ok.inj (Option.some.inj hx)]
    obtain ⟨m₁, ha₁, hports, hb₁⟩ := hselect h₁
    obtain ⟨m₂, ha₂, hblocked, hb₂⟩ := hselect h₂
    obtain ⟨m₃, ha₃, hshards, hb₃⟩ := hselect h₃
    exact ⟨m₁, m₂, m₃, ha₁, hports, hb₁.trans ha₂, hblocked, hb₂.trans ha₃, hshards,
      hb₃.trans (moved_of_beside hr)⟩
  · cases hx

theorem WasRead.after {m m₁ m' : Machine} {x : List Int × List Int × List Int}
    (hr : Relation.ReflTransGen R m m₁) (h : WasRead R m₁ x m') : WasRead R m x m' := by
  obtain ⟨a, b, c, ha, rest⟩ := h
  exact ⟨a, b, c, hr.trans ha, rest⟩

theorem WasRead.before {m m₁ m' : Machine} {x : List Int × List Int × List Int}
    (h : WasRead R m x m₁) (hr : Relation.ReflTransGen R m₁ m') : WasRead R m x m' := by
  obtain ⟨a, b, c, ha, hx, hab, hy, hbc, hz, hc⟩ := h
  exact ⟨a, b, c, ha, hx, hab, hy, hbc, hz, hc.trans hr⟩

theorem among_ofExcept_ok {α : Type} {x : Except Exn α} {a : α}
    (h : Among (does tools R) (beside R) (ofExcept x) s (some (.ok a)) s') :
    x = .ok a ∧ Moved R s s' := by
  cases x with
  | ok b =>
    obtain ⟨hr, hb | hb⟩ := among_ret.1 h
    · exact ⟨congrArg _ (Except.ok.inj (Option.some.inj hb)).symm, moved_of_beside hr⟩
    · cases hb
  | error e => obtain ⟨-, hb | hb⟩ := among_raise.1 h <;> cases hb

/-- What `read_db` returns has been read so, and is in range. -/
theorem among_readDb {floats : List Char → Bool × Except Exn Int} {intOf : String → Except Exn Int}
    {x : List Int × List Int × List Int}
    (h : Among (does tools R) (beside R) (readDb (loads floats intOf)) s (some (.ok x)) s') :
    WasRead R s.1 x s'.1 ∧ InRange x := by
  obtain ⟨owner, s₁, h₁, h⟩ := among_bind_ok h
  have hm₁ := moved_of_reads (Prog.Only.call (reads_of_none rfl)) h₁
  split at h
  · obtain ⟨-, hx | hx⟩ := among_raise.1 h <;> cases hx
  obtain ⟨euid, s₂, h₂, h⟩ := among_bind_ok h
  have hm₂ : Moved R s s₂ := hm₁.trans (moved_of_reads (Prog.Only.call (reads_of_none rfl)) h₂)
  split at h
  · obtain ⟨-, hx | hx⟩ := among_raise.1 h <;> cases hx
  split at h
  · obtain ⟨y, s₃, h₃, h⟩ := among_bind_ok h
    obtain ⟨hy, hm⟩ := among_ofExcept_ok h
    obtain ⟨rfl, hrange⟩ := checkRanges_ok hy
    have hselect : ∀ s q (r : Except Exn (List Int)) s', does tools R s (.select q) r s' →
        alone tools s (.select q) r s' := fun _ _ _ _ hd => hd
    exact ⟨((among_queryDb hselect h₃).after hm₂).before hm, hrange⟩
  · obtain ⟨⟨status, payload⟩, s₃, h₃, h⟩ := among_bind_ok h
    dsimp only at h
    split at h
    · obtain ⟨-, hx | hx⟩ := among_raise.1 h <;> cases hx
    · rename_i hstatus
      obtain rfl := not_not.1 hstatus
      obtain ⟨y, s₄, h₄, h⟩ := among_bind_ok h
      obtain ⟨hread, hm₄⟩ := among_ofExcept_ok h₄
      obtain ⟨hy, hm⟩ := among_ofExcept_ok h
      obtain ⟨rfl, hrange⟩ := checkRanges_ok hy
      obtain ⟨a, b, hab, ⟨-, hchild⟩, hb⟩ := among_call_ok h₃
      obtain ⟨z, hz, rfl⟩ := hchild payload rfl
      rw [readPayload_dump] at hread
      obtain rfl := Except.ok.inj hread
      have hwas := among_queryDb (fun _ _ _ _ hd => hd) hz
      exact ⟨(hwas.after (hm₂.trans (moved_of_beside hab))).before
        ((moved_of_beside hb).trans (hm₄.trans hm)), hrange⟩

theorem reads_queryDb : queryDb.Only Reads :=
  Prog.Only.bind (Prog.Only.call (reads_of_none rfl)) fun _ =>
    Prog.Only.bind (Prog.Only.call (reads_of_none rfl)) fun _ =>
    Prog.Only.bind (Prog.Only.call (reads_of_none rfl)) fun _ => trivial

theorem reads_readDb (py : Python) : (readDb py).Only Reads := by
  refine Prog.Only.bind (Prog.Only.call (reads_of_none rfl)) fun owner => ?_
  split
  · trivial
  refine Prog.Only.bind (Prog.Only.call (reads_of_none rfl)) fun euid => ?_
  split
  · trivial
  split
  · exact Prog.Only.bind reads_queryDb fun _ => reads_ofExcept _
  · refine Prog.Only.bind (Prog.Only.call (reads_of_none rfl)) fun x => ?_
    split
    split
    · trivial
    · exact Prog.Only.bind (reads_ofExcept _) fun _ => reads_ofExcept _

theorem reads_syncInput (py : Python) : (syncInput py).Only Reads := by
  refine Prog.Only.bind (Prog.Only.call (reads_of_none rfl)) fun found => ?_
  split
  · exact Prog.Only.bind (reads_readDb py) fun _ => trivial
  · trivial

/-- What `sync` works with: there is a database. -/
theorem among_syncInput {floats : List Char → Bool × Except Exn Int}
    {intOf : String → Except Exn Int} {ports blocked : List Int}
    (h : Among (does tools R) (beside R) (syncInput (loads floats intOf)) s
      (some (.ok (ports, blocked))) s') :
    ∃ shards, WasRead R s.1 (ports, blocked, shards) s'.1 ∧ InRange (ports, blocked, shards) := by
  obtain ⟨found, s₁, h₁, h⟩ := among_bind_ok h
  obtain ⟨a, b, ha, ⟨hfound, -⟩, -⟩ := among_call_ok h₁
  have hm := moved_of_reads (Prog.Only.call (reads_of_none rfl)) h₁
  rw [if_pos (Except.ok.inj hfound)] at h
  obtain ⟨⟨ports', blocked', shards⟩, s₂, h₂, h⟩ := among_bind_ok h
  obtain ⟨hr, hx | hx⟩ := among_ret.1 h
  · obtain ⟨rfl, rfl⟩ := Prod.mk.inj (Except.ok.inj (Option.some.inj hx))
    obtain ⟨hwas, hrange⟩ := among_readDb h₂
    exact ⟨shards, (hwas.after hm).before (moved_of_beside hr), hrange⟩
  · cases hx

/-- `current_blocked` leaves the table, and returns its set as it was at some time. -/
theorem among_currentBlocked (ht : tools.Lawful) {floats : List Char → Bool × Except Exn Int}
    {intOf : String → Except Exn Int} {out : Option (Except Exn (Option (List Int)))}
    (h : Among (does tools R) (beside R) (currentBlocked (loads floats intOf)) s out s') :
    Moved R s s' ∧ ∀ xs, out = some (.ok (some xs)) → ∃ m g, Relation.ReflTransGen R s.1 m ∧
      m.table = some g ∧ xs.toFinset = g ∧
      Relation.ReflTransGen R m s'.1 := by
  have hset : ∀ {m : Machine} {proc : Proc} {m' : Machine},
      tools.Ran .nft ["-j", "list", "set", "inet", "wpp", "blocked"] none m proc m' →
      m' = m ∧ (proc.returncode = 0 → ∃ g v, m.table = some g ∧ JsonText.read proc.stdout.toList =
        some v ∧ SetListing v g) := by
    rintro m proc m' ⟨f, hnft, rfl⟩
    by_cases hcode : proc.returncode = 0
    · obtain ⟨rfl, hg⟩ := ht.list hnft hcode
      exact ⟨rfl, fun _ => hg⟩
    · rw [ht.fails hnft hcode]
      exact ⟨rfl, fun h => absurd h hcode⟩
  rcases among_bind h with ⟨h₁, rfl⟩ | ⟨e, h₁, rfl⟩ | ⟨proc, s₁, h₁, h⟩
  · refine ⟨?_, by simp⟩
    rcases among_run h₁ with ⟨hm, -⟩ | ⟨s₁, m, proc, hm, hran, hm', -⟩
    · exact hm
    · exact hm.trans ((hset hran).1 ▸ hm')
  · refine ⟨?_, by simp⟩
    rcases among_run h₁ with ⟨hm, -⟩ | ⟨s₁, m, proc, hm, hran, hm', -⟩
    · exact hm
    · exact hm.trans ((hset hran).1 ▸ hm')
  rcases among_run h₁ with ⟨-, hno⟩ | ⟨s₂, m, proc', hm, hran, hm', hout⟩
  · exact absurd rfl (hno proc)
  obtain ⟨rfl, -⟩ := hout proc rfl
  obtain ⟨rfl, hlist⟩ := hset hran
  have hrest : (if proc.returncode ≠ 0 then pure none
      else return some (← ofExcept (((loads floats intOf).loads proc.stdout).bind (parseSetElements (loads floats intOf)))) :
        P (Option (List Int))).Only Reads := by
    split
    · trivial
    · exact Prog.Only.bind (reads_ofExcept _) fun _ => trivial
  refine ⟨(hm.trans hm').trans (moved_of_reads hrest h), ?_⟩
  rintro xs rfl
  split at h
  · obtain ⟨-, h | h⟩ := among_ret.1 h <;> cases h
  · rename_i hcode
    obtain ⟨g, v, hg, hread, hv⟩ := hlist (not_not.1 hcode)
    obtain ⟨ys, hys, hset'⟩ := @parseSetElements_listing floats (loads floats intOf) v g hv
    have hloads : ((loads floats intOf).loads proc.stdout).bind
        (parseSetElements (loads floats intOf)) = .ok ys := by
      rw [loads_of_read hread]
      exact hys
    rw [hloads] at h
    obtain ⟨hr, hxs | hxs⟩ := among_ret.1 h
    · refine ⟨s₂.1, g, hm, hg, ?_, hm'.trans (moved_of_beside hr)⟩
      rw [Option.some.inj (Except.ok.inj (Option.some.inj hxs)), hset']
    · cases hxs

end Steps

/-! ## Texts -/

theorem readElements_text {ports : List Int} (hne : ports ≠ []) (h : ∀ p ∈ ports, 0 ≤ p) :
    readElements (Word.elements ports).text = some ports := by
  have hlex : lex (Word.elements ports).text.toList = "\x7b" ::
      ([","].intercalate (ports.map fun p => [toString p]) ++ ["\x7d"]) := by
    have hline : (Word.elements ports).text.toList = [] ++ '\x7b' ::
        ([] ++ ' ' :: ((elements (ports.map toString)).toList ++ ' ' :: ([] ++ '\x7d' :: []))) := by
      simp only [Word.text, String.toList_append, List.append_assoc]
      rfl
    have hwords : ((ports.map toString).map fun v => lex v.toList) = ports.map fun p =>
        [toString p] := by
      rw [List.map_map]
      refine List.map_congr_left fun p hp => ?_
      obtain ⟨n, rfl⟩ := Int.eq_ofNat_of_zero_le (h p hp)
      exact lex_plain (plain_toString n)
    rw [hline, lex_symbol _ _ (by decide) (by decide), lex_space, lex_space, lex_elements, hwords,
      lex_symbol _ _ (by decide) (by decide)]
    rfl
  have hcomma : ∀ ws ∈ ports.map fun p => [toString p], "," ∉ ws := by
    intro ws hws
    obtain ⟨p, hp, rfl⟩ := List.mem_map.1 hws
    obtain ⟨n, rfl⟩ := Int.eq_ofNat_of_zero_le (h p hp)
    exact mt List.mem_singleton.1 (ne_of_plain (plain_toString n) rfl)
  rw [readElements, hlex]
  simp only [List.getLast?_concat, if_pos, List.dropLast_concat]
  rw [List.splitOn_intercalate "," hcomma (by simpa using hne)]
  have hread : (ports.map fun p => [toString p]).mapM readElement = some (ports.map id) := by
    refine mapM_map_eq_some fun p hp => ?_
    obtain ⟨n, rfl⟩ := Int.eq_ofNat_of_zero_le (h p hp)
    exact readNumber_toString n
  rw [hread, List.map_id]

theorem readTable_text {ports blocked : List Int} (h : ∀ p ∈ ports, 0 ≤ p) :
    readTable (buildRuleset ports blocked).text = some (buildRuleset ports blocked).blocked := by
  have hports : ∀ p ∈ (buildRuleset ports blocked).ports, 0 ≤ p :=
    fun p hp => h p (mem_sortedSet.1 hp)
  have hblocked : ∀ p ∈ (buildRuleset ports blocked).blocked, 0 ≤ p :=
    fun p hp => h p (mem_buildRuleset (List.mem_append_right _ hp))
  have hhead : "table inet wpp\ndelete table inet wpp\n".toList.isPrefixOf
      (buildRuleset ports blocked).text.toList = true := by
    have hlines : ∃ line lines, scriptLines (buildRuleset ports blocked) = "table inet wpp" ::
        "delete table inet wpp" :: line :: lines := ⟨_, _, rfl⟩
    obtain ⟨line, lines, hlines⟩ := hlines
    rw [text_eq, hlines, String.intercalate_cons_cons, String.intercalate_cons_cons,
      List.isPrefixOf_iff_prefix]
    refine ⟨("\n".intercalate (line :: lines)).toList ++ "\n".toList, ?_⟩
    simp only [String.toList_append, List.append_assoc]
    rfl
  rw [readTable, if_pos hhead, readScript_text hports hblocked, declaredSets_declared]
  rfl

/-- What an integer is written as is no other number. -/
theorem eq_of_upToNewline {p : Int} {n : ℕ} (h : UpToNewline (toString p) n) : (n : Int) = p := by
  have hdigits := chomp_eq_toDigits.2 h
  cases p with
  | ofNat m =>
    have hm : chomp (toString (m : Int)).toList = Nat.toDigits 10 m :=
      chomp_eq_toDigits.2 (.inl rfl)
    rw [← decimal_toDigits n, ← hdigits]
    exact (congrArg decimal hm).trans (decimal_toDigits m)
  | negSucc m =>
    -- a minus is no digit
    have htext : (toString (Int.negSucc m)).toList = '-' :: Nat.toDigits 10 (m + 1) :=
      JsonText.toString_negSucc m
    have hchomp : chomp ('-' :: Nat.toDigits 10 (m + 1)) = '-' :: Nat.toDigits 10 (m + 1) := by
      refine chomp_of_no_newline fun hmem => ?_
      rcases List.mem_cons.1 hmem with hmem | hmem
      · exact absurd hmem (by decide)
      · exact absurd (List.all_eq_true.1 (Decimal.canonical_toDigits (m + 1)).1 _ hmem) (by decide)
    rw [htext, hchomp] at hdigits
    have hall := (Decimal.canonical_toDigits n).1
    rw [← hdigits] at hall
    exact absurd hall (by simp)

theorem parsePort_toString {p q : Int} (h : parsePort (toString p) = .ok q) : q = p ∧ 0 ≤ p := by
  obtain ⟨n, rfl, -, -, hn⟩ := parsePort_eq_ok.1 h
  have hp := eq_of_upToNewline hn
  exact ⟨hp, hp ▸ Int.natCast_nonneg n⟩

theorem parseShard_toString {k q : Int} (h : parseShard (toString k) = .ok q) : q = k := by
  obtain ⟨n, rfl, -, hn⟩ := parseShard_eq_ok.1 h
  exact eq_of_upToNewline hn

theorem parsePorts_toString {ports xs : List Int} (h : parsePorts (ports.map toString) = .ok xs) :
    xs.toFinset = ports.toFinset ∧ xs ≠ [] ∧ ∀ p ∈ xs, 0 ≤ p := by
  have hne : ports.map toString ≠ [] := by
    intro hnil
    rw [parsePorts, if_pos hnil] at h
    cases h
  rw [parsePorts, if_neg hne] at h
  obtain ⟨ys, hys, rfl⟩ : ∃ ys, (ports.map toString).mapM parsePort = .ok ys ∧
      sortedSet ys = xs := by
    cases hm : (ports.map toString).mapM parsePort with
    | error e =>
      rw [hm] at h
      cases h
    | ok ys =>
      rw [hm] at h
      exact ⟨ys, rfl, Except.ok.inj h⟩
  rw [mapM_eq_ok, List.forall₂_map_left_iff] at hys
  have hall : List.Forall₂ (fun p q => q = p ∧ 0 ≤ p) ports ys :=
    hys.imp fun _ _ hpq => parsePort_toString hpq
  have hsame : ys = ports := by
    have := hall.imp (fun _ _ hpq => hpq.1)
    exact (List.forall₂_eq_eq_eq ▸ this.flip)
  subst hsame
  refine ⟨?_, fun hnil => hne ?_, fun p hp => ?_⟩
  · ext p
    rw [List.mem_toFinset, List.mem_toFinset, mem_sortedSet]
  · cases ys with
    | nil => rfl
    | cons y ys =>
      exact absurd (mem_sortedSet.2 List.mem_cons_self) (by rw [hnil]; exact List.not_mem_nil)
  · obtain ⟨q, -, -, hq⟩ := forall₂_mem_left hall p (mem_sortedSet.1 hp)
    exact hq

end Ctl
end WebProxyPanel
