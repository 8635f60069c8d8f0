import WebProxyPanel.Loads
/-!
# Which connections are cut

A filter of `ss -K` is read back from the words that are run, as a list of terms of which one must
hold. What `kill` (ctl.py:186-193) runs for a set of ports matches just the sockets with one of them
at either end, with each port in one filter only (`ran_kill_cuts`); `sync` (ctl.py:268-279) calls it
with the ports that are newly blocked, and `block` with its arguments.
-/

namespace WebProxyPanel
namespace Ctl
open Effects

/-! ## Filters -/

inductive Side where | sport | dport
deriving DecidableEq, Repr

/-- `sport = :p` or `dport = :p` -/
structure Term where
  side : Side
  port : ℤ
deriving DecidableEq, Repr

/-- The term holds of a socket with this source port and this destination port. -/
def Term.Holds (t : Term) (a b : ℤ) : Prop :=
  match t.side with
  | .sport => a = t.port
  | .dport => b = t.port

/-- Terms with `or` in between match what one of them does. -/
def Matches (filter : List Term) (a b : ℤ) : Prop := ∃ t ∈ filter, t.Holds a b

/-- The ports that a filter names. -/
def named (filter : List Term) : List ℤ := (filter.map Term.port).dedup

def readTerm : List String → Option Term
  | ["sport", "=", ":", number] => (readNumber number).map (Term.mk .sport)
  | ["dport", "=", ":", number] => (readNumber number).map (Term.mk .dport)
  | _ => none

/-- A filter in parentheses. -/
def readFilter (text : String) : Option (List Term) :=
  match lex text.toList with
  | "(" :: words => if words.getLast? = some ")" then
    (words.dropLast.splitOn "or").mapM readTerm else none
  | _ => none

/-- The filter that a command line of `ss` ends with. -/
def readSs : List String → Option (List Term)
  | ["-K", "-tn", "state", "established", filter] => readFilter filter
  | _ => none

/-- What each `ss` that is run matches. -/
def ssFilters (es : List (Exchange Act Exn)) : List (Option (List Term)) :=
  (commands es).filterMap fun c => if c.tool = .ss then
    some (readSs (c.args.map Word.text)) else none

/-! ## The text of a filter -/

def portTerms (p : ℤ) : List Term := [⟨.sport, p⟩, ⟨.dport, p⟩]

def termWords (side : String) (p : ℤ) : List String := [side, "=", ":", toString p]

theorem plain_or : Plain "or" := ⟨by decide, List.all_eq_true.1 (by decide)⟩

theorem lex_term (n : ℕ) :
    lex ("sport = :" ++ toString (n : ℤ) ++ " or dport = :" ++ toString (n : ℤ)).toList =
      termWords "sport" n ++ "or" :: termWords "dport" n := by
  have hline : ("sport = :" ++ toString (n : ℤ) ++ " or dport = :" ++ toString (n : ℤ)).toList =
      "sport".toList ++ ' ' ::
      ([] ++ '=' :: ([] ++ ' ' :: ([] ++ ':' :: ((toString (n : ℤ)).toList ++ ' ' ::
        ("or".toList ++ ' ' :: ("dport".toList ++ ' ' :: ([] ++ '=' :: ([] ++ ' ' :: ([] ++ ':' ::
          (toString (n : ℤ)).toList))))))))) := by
    simp only [String.toList_append, List.append_assoc]
    rfl
  rw [hline]
  simp only [lex_space, lex_symbol _ _ (c := '=') (by decide) (by decide),
    lex_symbol _ _ (c := ':') (by decide) (by decide), lex_plain (plain_toString n),
    lex_plain plain_or]
  rfl

theorem lex_or (values : List String) :
    lex (" or ".intercalate values).toList =
      ["or"].intercalate (values.map fun v => lex v.toList) := by
  induction values with
  | nil => rfl
  | cons v vs ih =>
    cases vs with
    | nil =>
      simp only [String.intercalate_singleton, List.map_cons, List.map_nil,
        List.intercalate_singleton]
    | cons u us =>
      rw [String.intercalate_cons_cons, String.toList_append, String.toList_append,
        List.append_assoc]
      have hor : " or ".toList ++ (" or ".intercalate (u :: us)).toList
          = ' ' :: ("or".toList ++ ' ' :: (" or ".intercalate (u :: us)).toList) := rfl
      rw [hor, lex_space, lex_space, ih, lex_plain plain_or]
      rfl

/-- A list of pairs in between is a list of twice as many. -/
theorem intercalate_pairs {α β : Type} (sep : α) (f g : β → List α) (xs : List β) :
    [sep].intercalate (xs.map fun x => f x ++ sep :: g x) =
      [sep].intercalate (xs.flatMap fun x => [f x, g x]) := by
  induction xs with
  | nil => rfl
  | cons x xs ih =>
    cases xs with
    | nil => simp
    | cons y ys =>
      simp only [List.map_cons, List.flatMap_cons, List.cons_append, List.nil_append,
        List.intercalate_cons_cons] at ih ⊢
      rw [ih]
      simp only [List.append_assoc, List.cons_append, List.nil_append]

/-- Words between which `or` stands come back one by one. -/
theorem readFilter_words {text : String} {words : List (List String)} (hne : words ≠ [])
    (htext : lex text.toList = "(" :: (["or"].intercalate words ++ [")"]))
    (hor : ∀ ws ∈ words, "or" ∉ ws) : readFilter text = words.mapM readTerm := by
  unfold readFilter
  rw [htext]
  simp only [List.getLast?_concat, if_pos, List.dropLast_concat]
  rw [List.splitOn_intercalate "or" hor hne]

theorem mapM_readTerm {ports : List ℤ} (h : ∀ p ∈ ports, 0 ≤ p) :
    (ports.flatMap fun p => [termWords "sport" p, termWords "dport" p]).mapM readTerm =
      some (ports.flatMap portTerms) := by
  induction ports with
  | nil => rfl
  | cons p ps ih =>
    obtain ⟨n, rfl⟩ := Int.eq_ofNat_of_zero_le (h p List.mem_cons_self)
    rw [List.flatMap_cons, List.flatMap_cons, List.mapM_append, ih fun q hq =>
      h q (List.mem_cons_of_mem _ hq)]
    have hs : readTerm (termWords "sport" n) = some ⟨.sport, n⟩ := by
      simp only [termWords, readTerm, readNumber_toString, Option.map_some]
    have hd : readTerm (termWords "dport" n) = some ⟨.dport, n⟩ := by
      simp only [termWords, readTerm, readNumber_toString, Option.map_some]
    rw [List.mapM_cons, List.mapM_cons, hs, hd]
    rfl

theorem or_notMem_termWords {side : String} (hside : "or" ≠ side) (n : ℕ) :
    "or" ∉ termWords side n := by
  have hnum : "or" ≠ toString (n : ℤ) := by
    intro he
    have hdigits := (Decimal.canonical_toDigits n).1
    rw [← toList_toString_natCast, ← he] at hdigits
    revert hdigits
    decide
  simp only [termWords, List.mem_cons, List.not_mem_nil, or_false, not_or]
  exact ⟨hside, by decide, by decide, hnum⟩

/-- The text of a filter reads as one term for each end of each port. -/
theorem readFilter_text {ports : List ℤ} (hne : ports ≠ []) (h : ∀ p ∈ ports, 0 ≤ p) :
    readFilter (Word.filter ports).text = some (ports.flatMap portTerms) := by
  have hwords : (ports.map fun p => "sport = :" ++ toString p ++ " or dport = :" ++ toString p).map
      (fun v => lex v.toList) = ports.map fun p =>
      termWords "sport" p ++ "or" :: termWords "dport" p := by
    rw [List.map_map]
    refine List.map_congr_left fun p hp => ?_
    obtain ⟨n, rfl⟩ := Int.eq_ofNat_of_zero_le (h p hp)
    exact lex_term n
  have htext : lex (Word.filter ports).text.toList =
      "(" :: (["or"].intercalate (ports.flatMap fun p =>
        [termWords "sport" p, termWords "dport" p]) ++ [")"]) := by
    rw [← intercalate_pairs, ← hwords, ← lex_or]
    have hline : (Word.filter ports).text.toList = "(".toList ++ ' ' ::
        ((" or ".intercalate (ports.map fun p => "sport = :" ++ toString p ++ " or dport = :" ++
          toString p)).toList ++ ' ' :: ")".toList) := by
      simp only [Word.text, String.toList_append, List.append_assoc]
      rfl
    rw [hline, lex_space, lex_space]
    rfl
  rw [readFilter_words _ htext, mapM_readTerm h]
  · intro ws hws
    obtain ⟨p, hp, hws⟩ := List.mem_flatMap.1 hws
    obtain ⟨n, rfl⟩ := Int.eq_ofNat_of_zero_le (h p hp)
    simp only [List.mem_cons, List.not_mem_nil, or_false] at hws
    rcases hws with rfl | rfl
    · exact or_notMem_termWords (by decide) n
    · exact or_notMem_termWords (by decide) n
  · obtain ⟨p, ps, rfl⟩ := List.exists_cons_of_ne_nil hne
    simp

/-! ## Chunks -/

theorem length_le_of_mem_chunks {n : ℕ} {xs c : List ℤ} (h : c ∈ chunks n xs) : c.length ≤ n := by
  obtain ⟨i, -, rfl⟩ := List.mem_map.1 h
  exact List.length_take_le _ _

/-- The chunks of a list, one after the other. -/
theorem flatten_chunks {n : ℕ} (hn : 0 < n) (xs : List ℤ) : (chunks n xs).flatten = xs := by
  have hprefix : ∀ k, ((List.range k).map fun i => (xs.drop (i * n)).take n).flatten =
      xs.take (k * n) := by
    intro k
    induction k with
    | zero => simp
    | succ k ih =>
      rw [List.range_succ, List.map_append, List.flatten_append, ih, Nat.add_mul, Nat.one_mul,
        List.take_add]
      simp
  rw [chunks, hprefix, List.take_of_length_le]
  have := Nat.div_add_mod' (xs.length + n - 1) n
  have := Nat.mod_lt (xs.length + n - 1) hn
  omega

theorem ne_nil_of_mem_chunks {n : ℕ} (hn : 0 < n) {xs c : List ℤ} (h : c ∈ chunks n xs) :
    c ≠ [] := by
  obtain ⟨i, hi, rfl⟩ := List.mem_map.1 h
  rw [List.mem_range, Nat.lt_iff_add_one_le, Nat.le_div_iff_mul_le hn, Nat.add_mul] at hi
  apply List.ne_nil_of_length_pos
  rw [List.length_take, List.length_drop]
  omega

/-- An element of a list of lists without duplicates is in one of them. -/
theorem length_filter_mem_eq_one {xss : List (List ℤ)} (hnodup : xss.flatten.Nodup) {p : ℤ}
    (hp : p ∈ xss.flatten) : (xss.filter fun xs => p ∈ xs).length = 1 := by
  induction xss with
  | nil => simp at hp
  | cons xs xss ih =>
    rw [List.flatten_cons, List.nodup_append] at hnodup
    obtain ⟨-, hrest, hdisj⟩ := hnodup
    rw [List.flatten_cons, List.mem_append] at hp
    by_cases hx : p ∈ xs
    · have hnot : ∀ ys ∈ xss, p ∉ ys := fun ys hys hpy =>
          hdisj p hx p (List.mem_flatten.2 ⟨ys, hys, hpy⟩) rfl
      rw [List.filter_cons_of_pos (by simpa using hx),
        List.filter_eq_nil_iff.2 (by simpa using hnot)]
      rfl
    · rw [List.filter_cons_of_neg (by simpa using hx)]
      exact ih hrest (hp.resolve_left hx)

/-! ## The commands of `kill` -/

theorem commands_append (es es' : List (Exchange Act Exn)) :
    commands (es ++ es') = commands es ++ commands es' :=
  List.filterMap_append

/-- A step that may run no command has run none. -/
theorem commands_eq_nil {α : Type} {Q : α → Prop} {p : P α} (hp : Runs (fun _ => False) Q p)
    {es : List (Exchange Act Exn)} {out : Except Exn α} (h : Prog.Ran p es out) :
    commands es = [] := by
  rw [commands, List.filterMap_eq_nil_iff]
  intro e he
  rw [Option.eq_none_iff_forall_ne_some]
  exact fun c hc => (hp es out h).1 e he c hc

theorem runs_checked {C : Command → Prop} {t : Tool} (path : ToolPath t) (proc : Proc)
    (check : Bool) : Runs C (fun _ => True) (if check then checked path proc else .ret proc) := by
  cases check with
  | false => exact Prog.Does.ret trivial
  | true =>
    show Runs C _ (checked path proc)
    unfold checked
    by_cases h : proc.returncode ≠ 0
    · rw [if_pos h]
      exact Prog.Does.raise
    · rw [if_neg h]
      exact Prog.Does.ret trivial

theorem commands_run {t : Tool} {args : List Word} {stdin : Option Ruleset} {check : Bool}
    {es : List (Exchange Act Exn)} {proc : Proc}
    (h : Prog.Ran (run t args stdin check) es (.ok proc)) : commands es = [⟨t, args, stdin⟩] := by
  rcases Prog.ran_bind.1 h with ⟨e, -, he⟩ | ⟨path, es₁, es₂, rfl, h₁, h₂⟩
  · simp at he
  rcases Prog.ran_bind.1 h₂ with ⟨e, -, he⟩ | ⟨proc', es₃, es₄, rfl, h₃, h₄⟩
  · simp at he
  rw [commands_append, commands_append, commands_eq_nil (runs_tool t) h₁,
    commands_eq_nil (runs_checked path proc' check) h₄, Prog.ran_call.1 h₃]
  rfl

/-- `[tool("ss"), "-K", "-tn", "state", "established", expression]` -/
def ssCommand (ports : List ℤ) : Command :=
  ⟨.ss, [.lit "-K", .lit "-tn", .lit "state", .lit "established", .filter ports], none⟩

theorem commands_killOne {ports : List ℤ} {es : List (Exchange Act Exn)}
    (h : Prog.Ran (killOne ports) es (.ok ())) : commands es = [ssCommand ports] := by
  rcases Prog.ran_bind.1 h with ⟨e, -, he⟩ | ⟨proc, es₁, es₂, rfl, h₁, h₂⟩
  · simp at he
  have hwarn : Runs (fun _ => False) (fun _ => True) (Prog.runIf (proc.returncode ≠ 0)
      (Prog.call (Act.stderr ("wppctl: ss -K failed: " ++ cut 200 (strip proc.stderr) ++
        "\n")))) := by
    unfold Prog.runIf
    by_cases hp : proc.returncode ≠ 0
    · rw [if_pos hp]
      exact runs_call rfl
    · rw [if_neg hp]
      exact Prog.Does.ret trivial
  rw [commands_append, commands_run h₁, commands_eq_nil hwarn h₂]
  rfl

theorem commands_forM_killOne {chunks : List (List ℤ)} {es : List (Exchange Act Exn)}
    (h : Prog.Ran (chunks.forM killOne) es (.ok ())) : commands es = chunks.map ssCommand := by
  induction chunks generalizing es with
  | nil => exact commands_eq_nil (Prog.Does.ret (Q := fun _ => True) trivial) h
  | cons chunk chunks ih =>
    rcases Prog.ran_bind.1 h with ⟨e, -, he⟩ | ⟨_, es₁, es₂, rfl, h₁, h₂⟩
    · simp at he
    · rw [commands_append, commands_killOne h₁, ih h₂]
      rfl

/-! ## What `kill` cuts -/

/-- The filters that are run match a socket just when one of its ends is a port to close; each names
at most 64 ports, and each port is named in one of them. -/
def Cuts (es : List (Exchange Act Exn)) (closed : ℤ → Prop) : Prop :=
  ∃ filters : List (List Term), ssFilters es = filters.map some ∧
    (∀ a b, (∃ f ∈ filters, Matches f a b) ↔ closed a ∨ closed b) ∧
    (∀ f ∈ filters, (named f).length ≤ 64) ∧
    ∀ p, closed p → (filters.filter fun f => p ∈ named f).length = 1

theorem matches_portTerms {ports : List ℤ} {a b : ℤ} :
    Matches (ports.flatMap portTerms) a b ↔ a ∈ ports ∨ b ∈ ports := by
  constructor
  · rintro ⟨t, ht, hold⟩
    obtain ⟨p, hp, ht⟩ := List.mem_flatMap.1 ht
    simp only [portTerms, List.mem_cons, List.not_mem_nil, or_false] at ht
    rcases ht with rfl | rfl
    · exact .inl (hold ▸ hp)
    · exact .inr (hold ▸ hp)
  · rintro (h | h)
    · exact ⟨⟨.sport, a⟩, List.mem_flatMap.2 ⟨a, h, by simp [portTerms]⟩, rfl⟩
    · exact ⟨⟨.dport, b⟩, List.mem_flatMap.2 ⟨b, h, by simp [portTerms]⟩, rfl⟩

theorem mem_named_portTerms {ports : List ℤ} {p : ℤ} :
    p ∈ named (ports.flatMap portTerms) ↔ p ∈ ports := by
  simp only [named, List.mem_dedup, List.mem_map, List.mem_flatMap, portTerms, List.mem_cons,
    List.not_mem_nil, or_false]
  constructor
  · rintro ⟨t, ⟨q, hq, rfl | rfl⟩, rfl⟩
    · exact hq
    · exact hq
  · exact fun hp => ⟨_, ⟨p, hp, .inl rfl⟩, rfl⟩

theorem length_named_portTerms (ports : List ℤ) :
    (named (ports.flatMap portTerms)).length ≤ ports.length := by
  have hsub : named (ports.flatMap portTerms) ⊆ ports := fun p hp => mem_named_portTerms.1 hp
  exact (List.subperm_of_subset (List.nodup_dedup _) hsub).length_le

/-- What runs the commands of `kill`, and of `ss` no others, cuts the ports that `kill` is given. -/
theorem cuts_of_commands {ports : List ℤ} {es : List (Exchange Act Exn)} (hnodup : ports.Nodup)
    (h0 : ∀ p ∈ ports, 0 ≤ p) {before : List Command} (hbefore : ∀ c ∈ before, c.tool ≠ .ss)
    (h : commands es = before ++ (killFilters ports).map ssCommand) : Cuts es (· ∈ ports) := by
  have hflat : (killFilters ports).flatten = Table.orderBy id ports := flatten_chunks (by decide) _
  have hnodup' : (killFilters ports).flatten.Nodup :=
    hflat ▸ (Table.orderBy_perm id ports).nodup_iff.2 hnodup
  refine ⟨(killFilters ports).map fun chunk => chunk.flatMap portTerms, ?_, fun a b => ?_, ?_,
    fun p hp => ?_⟩
  · have hnone : before.filterMap (fun c => if c.tool = .ss then
        some (readSs (c.args.map Word.text)) else none) = [] :=
      List.filterMap_eq_nil_iff.2 fun c hc => if_neg (hbefore c hc)
    rw [ssFilters, h, List.filterMap_append, hnone, List.nil_append, List.map_map]
    refine filterMap_eq_map fun chunk hchunk => ?_
    have hread : readFilter (Word.filter chunk).text = some (chunk.flatMap portTerms) :=
      readFilter_text (ne_nil_of_mem_chunks (by decide) hchunk) fun p hp =>
        h0 p (mem_killFilters.1 ⟨chunk, hchunk, hp⟩)
    rw [Function.comp_apply, ← hread]
    rfl
  · constructor
    · rintro ⟨f, hf, hm⟩
      obtain ⟨chunk, hchunk, rfl⟩ := List.mem_map.1 hf
      exact (matches_portTerms.1 hm).imp (fun ha => mem_killFilters.1 ⟨chunk, hchunk, ha⟩)
        fun hb => mem_killFilters.1 ⟨chunk, hchunk, hb⟩
    · rintro (ha | hb)
      · obtain ⟨chunk, hchunk, hp⟩ := mem_killFilters.2 ha
        exact ⟨_, List.mem_map_of_mem hchunk, matches_portTerms.2 (.inl hp)⟩
      · obtain ⟨chunk, hchunk, hp⟩ := mem_killFilters.2 hb
        exact ⟨_, List.mem_map_of_mem hchunk, matches_portTerms.2 (.inr hp)⟩
  · intro f hf
    obtain ⟨chunk, hchunk, rfl⟩ := List.mem_map.1 hf
    exact (length_named_portTerms chunk).trans (length_le_of_mem_chunks hchunk)
  · have hmem : p ∈ (killFilters ports).flatten := hflat ▸ Table.mem_orderBy.2 hp
    rw [List.filter_map, List.length_map, ← length_filter_mem_eq_one hnodup' hmem]
    congr 1
    refine List.filter_congr fun chunk _ => ?_
    simp only [Function.comp_apply, mem_named_portTerms]

theorem mem_commands {α : Type} {C : Command → Prop} {Q : α → Prop} {p : P α} (hp : Runs C Q p)
    {es : List (Exchange Act Exn)} {out : Except Exn α} (h : Prog.Ran p es out) :
    ∀ c ∈ commands es, C c := by
  intro c hc
  obtain ⟨e, he, hec⟩ := List.mem_filterMap.1 hc
  exact (hp es out h).1 e he c hec

/-- `block` cuts the ports that are given to it. -/
theorem ran_cmdBlock_cuts {args : List String} {es : List (Exchange Act Exn)}
    (h : Prog.Ran (cmdBlock args) es (.ok ())) :
    ∃ ports, parsePorts args = .ok ports ∧ Cuts es (· ∈ ports) := by
  rcases Prog.ran_bind.1 h with ⟨e, -, he⟩ | ⟨ports, es₁, es', rfl, h₁, h'⟩
  · simp at he
  rcases Prog.ran_bind.1 h' with ⟨e, -, he⟩ | ⟨proc, es₂, es₃, rfl, h₂, h₃⟩
  · simp at he
  obtain ⟨rfl, hports⟩ := ran_ofExcept.1 h₁
  obtain ⟨⟨-, hsorted, hrange⟩, -⟩ := parsePorts_ok hports.symm
  have hcommands : commands ([] ++ (es₂ ++ es₃)) = commands es₂ ++ (killFilters ports).map
      ssCommand := by
    rw [List.nil_append, commands_append, commands_forM_killOne h₃]
  have hbefore : ∀ c ∈ commands es₂, c.tool ≠ .ss := by
    rw [commands_run h₂]
    intro c hc
    rw [List.mem_singleton.1 hc]
    exact Tool.noConfusion
  have h0 : ∀ p ∈ ports, 0 ≤ p := fun p hp => le_trans (by decide) (hrange p hp).1
  exact ⟨ports, hports.symm, cuts_of_commands (hsorted.imp ne_of_lt) h0 hbefore hcommands⟩

/-- With the table present, `sync` cuts the ports that are blocked now and were not. -/
theorem ran_cmdSync_cuts {py : Python} {es : List (Exchange Act Exn)}
    (h : Prog.Ran (cmdSync py []) es (.ok ())) :
    ∃ ports blocked before es₁ es₂ es₃, es = es₁ ++ (es₂ ++ es₃) ∧
      Prog.Ran (syncInput py) es₁ (.ok (ports, blocked)) ∧
        Prog.Ran (currentBlocked py) es₂ (.ok before) ∧
      ((∀ p ∈ blocked, p ∈ ports) → ∀ known, before = some known → Cuts es fun p => p ∈ blocked ∧
        p ∉ known) := by
  obtain ⟨ports, blocked, before, es₁, es₂, es₃, es₄, rfl, h₁, h₂, ⟨proc, h₃⟩, h₄⟩ := ran_cmdSync h
  refine ⟨ports, blocked, before, es₁, es₂, es₃ ++ es₄, rfl, h₁, h₂, ?_⟩
  rintro hsub known rfl
  have hrange : ∀ p ∈ ports, 0 ≤ p := fun p hp =>
    le_trans (by decide) ((runs_syncInput_range (fun _ => False) py es₁ _ h₁).2 _ rfl p hp).1
  have hnew : ∀ p, p ∈ (blocked.filter (· ∉ known)).dedup ↔ p ∈ blocked ∧ p ∉ known := by
    intro p
    rw [List.mem_dedup, List.mem_filter, decide_eq_true_eq]
  have hcommands : commands (es₁ ++ (es₂ ++ (es₃ ++ es₄))) =
      (commands es₂ ++ commands es₃) ++ (killFilters (blocked.filter (· ∉ known)).dedup).map
      ssCommand := by
    rw [commands_append, commands_append, commands_append,
      commands_eq_nil (runs_syncInput_range _ py) h₁,
      commands_forM_killOne h₄, List.nil_append, List.append_assoc]
  have hbefore : ∀ c ∈ commands es₂ ++ commands es₃, c.tool ≠ .ss := by
    intro c hc
    rcases List.mem_append.1 hc with hc | hc
    · exact mem_commands (runs_currentBlocked (C := fun c => c.tool ≠ .ss) py (by decide)) h₂ c hc
    · rw [commands_run h₃, List.mem_singleton] at hc
      rw [hc]
      exact Tool.noConfusion
  have h0 : ∀ p ∈ (blocked.filter (· ∉ known)).dedup, 0 ≤ p :=
    fun p hp => hrange p (hsub p ((hnew p).1 hp).1)
  have hcuts := cuts_of_commands (List.nodup_dedup _) h0 hbefore hcommands
  simpa only [hnew] using hcuts

/-- Closing a port cuts its live connections, and only those. -/
theorem closing_cuts (py : Python) :
    (∀ es, Prog.Ran (cmdSync py []) es (.ok ()) → ∃ ports blocked before es₁ es₂ es₃,
      es = es₁ ++ (es₂ ++ es₃) ∧
      Prog.Ran (syncInput py) es₁ (.ok (ports, blocked)) ∧
        Prog.Ran (currentBlocked py) es₂ (.ok before) ∧
      ((∀ p ∈ blocked, p ∈ ports) → ∀ known, before = some known → Cuts es fun p =>
        p ∈ blocked ∧ p ∉ known)) ∧
    ∀ args es, Prog.Ran (cmdBlock args) es (.ok ()) → ∃ ports, parsePorts args = .ok ports ∧
      Cuts es (· ∈ ports) :=
  ⟨fun _ h => ran_cmdSync_cuts h, fun _ _ h => ran_cmdBlock_cuts h⟩

/-! A pool of five shards, most of whose slots are to be closed. -/

def json : Python := loads (fun _ => (false, .error .value)) fun _ => .error .value

/-- The child writes the bytes, and `nft` the text. -/
def childAnswers (payload : List UInt8) (listing : String) {β : Type} : Act β → Except Exn β
  | .exec _ _ _ => .ok ⟨0, listing, ""⟩
  | .child => .ok (0, payload)
  | a => answers "" a

/-- The parent has the lists of its child. -/
theorem follow_syncInput {py : Python} {payload : List UInt8} {listing : String}
    {x : List ℤ × List ℤ × List ℤ} (hread : readPayload py payload = .ok x)
    (hranges : checkRanges x = .ok x) :
    (Prog.follow (childAnswers payload listing) (syncInput py)).2 = .ok (x.1, x.2.1) := by
  have hrest : (Prog.follow (childAnswers payload listing)
      ((ofExcept (readPayload py payload)).bind fun x =>
      (ofExcept (checkRanges x)).bind fun x => (.ret (x.1, x.2.1) : P (List ℤ × List ℤ)))).2 =
        .ok (x.1, x.2.1) := by
    rw [hread, ofExcept, Prog.ret_bind, hranges]
    rfl
  rw [← hrest]
  simp [syncInput, readDb, Prog.call, Prog.follow, childAnswers, answers, Prog.bind_assoc]

/-- The ports from 20000 on. -/
def firstPorts (n : ℕ) : List ℤ := (List.range n).map fun i => 20000 + (i : ℤ)

def fiveShards : List ℤ × List ℤ × List ℤ := (firstPorts 80, firstPorts 70, [0, 1, 2, 3, 4])

/-- Three ports are blocked before. -/
def threeBlocked : String :=
  "\x7b\"nftables\": [\x7b\"set\": \x7b\"name\": \"blocked\", \"elem\": [20000, \x7b\"range\": [20001, 20002]\x7d]\x7d\x7d]\x7d"

abbrev fiveAnswers {β : Type} : Act β → Except Exn β :=
  childAnswers (dumpPayload fiveShards) threeBlocked

/-- `cmd_sync` after it has read the database. -/
def afterInput (x : List ℤ × List ℤ) : P Unit := do
  let before ← currentBlocked json
  let _ ← run .nft [.lit "-f", .lit "-"] (some (buildRuleset x.1 x.2)) true
  killNew x.2 before

theorem cmdSync_eq : cmdSync json [] = (syncInput json).bind afterInput := rfl

theorem follow_fiveShards :
    (Prog.follow fiveAnswers (syncInput json)).2 = .ok (firstPorts 80, firstPorts 70) :=
  follow_syncInput (x := fiveShards) (readPayload_dump fiveShards) (by decide +kernel)

theorem follow_threeBlocked :
    (Prog.follow fiveAnswers (currentBlocked json)).2 = .ok (some [20000, 20001, 20002]) := by
  rw [← toOption_eq_some]
  decide +kernel

theorem follow_afterInput :
    (Prog.follow fiveAnswers (afterInput (firstPorts 80, firstPorts 70))).2.toOption = some () ∧
    (ssFilters (Prog.follow fiveAnswers (afterInput (firstPorts 80, firstPorts 70))).1).length =
      2 := by decide +kernel

theorem ran_fiveShards :
    Prog.Ran (cmdSync json []) (Prog.follow fiveAnswers (cmdSync json [])).1 (.ok ()) := by
  have hout : (Prog.follow fiveAnswers (cmdSync json [])).2 = .ok () := by
    rw [cmdSync_eq, Prog.follow_bind follow_fiveShards]
    dsimp only
    exact toOption_eq_some.1 follow_afterInput.1
  have hran := Prog.ran_follow fiveAnswers (cmdSync json [])
  rwa [hout] at hran

/-- The command line of `block` for the same ports. -/
def seventyPorts : List String := (firstPorts 70).map toString

theorem parsePorts_seventy : (parsePorts seventyPorts).toOption = some (firstPorts 70) ∧
    (Prog.follow fiveAnswers (cmdBlock seventyPorts)).2.toOption = some () := by decide +kernel

/-- 67 ports are closed by `sync`, with two filters, and all 70 by `block`. -/
theorem closing_cuts_fiveShards :
    Cuts (Prog.follow fiveAnswers (cmdSync json [])).1
      (fun p => p ∈ firstPorts 70 ∧ p ∉ [20000, 20001, 20002]) ∧
    (ssFilters (Prog.follow fiveAnswers (cmdSync json [])).1).length = 2 ∧
    Cuts (Prog.follow fiveAnswers (cmdBlock seventyPorts)).1 (· ∈ firstPorts 70) := by
  refine ⟨?_, ?_, ?_⟩
  · obtain ⟨ports, blocked, before, es₁, es₂, es₃, hes, h₁, h₂, hcuts⟩ :=
      (closing_cuts json).1 _ ran_fiveShards
    have henv := Prog.follow_answers fiveAnswers (cmdSync json [])
    rw [hes] at henv
    have hinput := h₁.eq_follow fun e he => henv e (List.mem_append_left _ he)
    have hbefore := h₂.eq_follow fun e he =>
        henv e (List.mem_append_right _ (List.mem_append_left _ he))
    have hlists := follow_fiveShards
    have hset := follow_threeBlocked
    rw [hinput, Except.ok.injEq, Prod.mk.injEq] at hlists
    rw [hbefore, Except.ok.injEq] at hset
    obtain ⟨rfl, rfl⟩ := hlists
    exact hcuts (by decide +kernel) _ hset
  · have hnone : commands (Prog.follow fiveAnswers (syncInput json)).1 = [] := by
      have hran := Prog.ran_follow fiveAnswers (syncInput json)
      exact commands_eq_nil (runs_syncInput_range (fun _ => False) json) hran
    rw [cmdSync_eq, Prog.follow_bind follow_fiveShards, ssFilters, commands_append, hnone,
      List.nil_append, ← ssFilters]
    exact follow_afterInput.2
  · obtain ⟨hargs, hout⟩ := parsePorts_seventy
    have hran := Prog.ran_follow fiveAnswers (cmdBlock seventyPorts)
    rw [toOption_eq_some.1 hout] at hran
    obtain ⟨ports, hports, hcuts⟩ := (closing_cuts json).2 _ _ hran
    rw [hports] at hargs
    rwa [Option.some.inj hargs] at hcuts

end Ctl
end WebProxyPanel
