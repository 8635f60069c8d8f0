import WebProxyPanel.Lib.Literal
import WebProxyPanel.Lib.Pattern
import WebProxyPanel.ClientLinks
import WebProxyPanel.CounterNames
/-!
# The patterns of the source

The checks of `Ctl` and `ClientLinks` are what `re` makes of the patterns in the source, and the
numbers are what `int` reads.

| here | there |
| --- | --- |
| `portRe`, `shardRe` | ctl.py:52-53, with `match` |
| `counterRe` | ctl.py:141, with `match` |
| `secretRe`, `segmentRe` | links.py:11-12, with `fullmatch` |
-/

namespace WebProxyPanel

/-! ## Numbers among the arguments -/

namespace Ctl
open Pattern

/-- `^[0-9]{5}$` -/
def portRe : Pattern Char := (rep (one Char.isDigit) 5 5).anchored

/-- `(0|[1-9][0-9]{0,2})` -/
def shardNumber : Pattern Char :=
  alt (word ['0']) (seq (one fun c => c.isDigit && c ≠ '0') (rep (one Char.isDigit) 0 2))

/-- `^(0|[1-9][0-9]{0,2})$` -/
def shardRe : Pattern Char := shardNumber.anchored

/-- `c([0-9]{5})_(up|down)` -/
def counterNamed : Pattern Char :=
  seq (word ['c']) (seq (rep (one Char.isDigit) 5 5)
    (seq (word ['_']) (alt (word "up".toList) (word "down".toList))))

/-- `^c([0-9]{5})_(up|down)$` -/
def counterRe : Pattern Char := counterNamed.anchored

/-- `int(value)`; `digit` gives the values of the decimal digits of Unicode. -/
def int (digit : Char → Option ℕ) (value : String) : Except Exn ℤ :=
  (Literal.ofText digit value.toList).elim (.error .value) .ok

/-- `match` with `^` and `$` looks at the text less a newline at its end. -/
theorem match_chomp {r : Pattern Char} (hr : r.plain)
    (hnl : ∀ w ∈ r.language, w.getLast? ≠ some '\n') {cs : List Char} :
    r.anchored.match_ '\n' cs = true ↔ chomp cs ∈ r.language := by
  rw [match_anchored hr]
  constructor
  · rintro ⟨w, hw, hcs⟩
    rw [(chomp_eq_iff (hnl w hw)).2 hcs]
    exact hw
  · exact fun h => ⟨chomp cs, h, (chomp_eq_iff (hnl _ h)).1 rfl⟩

theorem portRe_match {value : String} : portRe.match_ '\n' value.toList = true ↔
    (chomp value.toList).length = 5 ∧ (chomp value.toList).all Char.isDigit = true := by
  have hdigits : ∀ w ∈ (rep (one Char.isDigit) 5 5).language, w.getLast? ≠ some '\n' := fun w hw =>
    getLast?_ne_newline (mem_rep_one.1 hw).2.2
  rw [portRe, match_chomp (r := rep (one Char.isDigit) 5 5) trivial hdigits, mem_rep_one]
  constructor
  · exact fun h => ⟨by omega, h.2.2⟩
  · exact fun h => ⟨by omega, by omega, h.2⟩

theorem mem_shardNumber {cs : List Char} : cs ∈ shardNumber.language ↔ isShardNumber cs = true := by
  show cs ∈ (word ['0']).language + (one _).language * (rep (one Char.isDigit) 0 2).language ↔ _
  rw [Language.mem_add, mem_word_language, Language.mem_mul, isShardNumber, Bool.or_eq_true,
    decide_eq_true_eq]
  refine or_congr_right ?_
  constructor
  · rintro ⟨_, ⟨c, hc, rfl⟩, ds, hds, rfl⟩
    obtain ⟨-, hlen, hall⟩ := mem_rep_one.1 hds
    simp only [Bool.and_eq_true, decide_eq_true_eq] at hc
    simp [hc.1, hc.2, hall]
    omega
  · intro h
    cases cs with
    | nil => simp at h
    | cons c ds =>
      simp only [List.all_cons, List.head?_cons, Option.any_some, Bool.and_eq_true,
        decide_eq_true_eq, List.length_cons] at h
      obtain ⟨⟨⟨hc, hall⟩, hzero⟩, hlen⟩ := h
      exact ⟨[c], ⟨c, by simp [hc, hzero], rfl⟩, ds,
        mem_rep_one.2 ⟨Nat.zero_le _, by omega, hall⟩, rfl⟩

theorem isShardNumber_digits {cs : List Char} (h : isShardNumber cs = true) :
    cs.all Char.isDigit = true ∧ cs ≠ [] :=
  ⟨(isShardNumber_iff.1 h).1.1, (isShardNumber_iff.1 h).1.2.1⟩

theorem shardRe_match {value : String} :
    shardRe.match_ '\n' value.toList = true ↔ isShardNumber (chomp value.toList) = true := by
  rw [← mem_shardNumber]
  refine match_chomp (r := shardNumber) ⟨plain_word _, trivial, trivial⟩ fun w hw => ?_
  exact getLast?_ne_newline (isShardNumber_digits (mem_shardNumber.1 hw)).1

theorem mem_counterNamed {cs : List Char} : cs ∈ counterNamed.language ↔
    ∃ (digits : List Char) (up : Bool), digits.length = 5 ∧ digits.all Char.isDigit ∧
      cs = 'c' :: (digits ++ '_' :: (direction up).toList) := by
  constructor
  · rintro ⟨_, hc, _, ⟨digits, hdigits, _, ⟨_, hbar, dir, hdir, rfl⟩, rfl⟩, rfl⟩
    obtain rfl := mem_word_language.1 hc
    obtain rfl := mem_word_language.1 hbar
    obtain ⟨hleast, hmost, hall⟩ := mem_rep_one.1 hdigits
    have hlen : digits.length = 5 := by omega
    rcases hdir with hup | hdown
    · obtain rfl := mem_word_language.1 hup
      exact ⟨digits, true, hlen, hall, rfl⟩
    · obtain rfl := mem_word_language.1 hdown
      exact ⟨digits, false, hlen, hall, rfl⟩
  · rintro ⟨digits, up, hlen, hall, rfl⟩
    have hdir : (direction up).toList ∈ (alt (word "up".toList) (word "down".toList)).language := by
      cases up
      · exact .inr (mem_word_language.2 rfl)
      · exact .inl (mem_word_language.2 rfl)
    have hdigits : digits ∈ (rep (one Char.isDigit) 5 5).language :=
      mem_rep_one.2 ⟨by omega, by omega, hall⟩
    exact ⟨_, mem_word_language.2 rfl, _,
      ⟨digits, hdigits, _, ⟨_, mem_word_language.2 rfl, _, hdir, rfl⟩, rfl⟩, rfl⟩

/-- `parse_counters` reads the names that match. -/
theorem counterName_isSome {name : String} :
    (counterName name).isSome = counterRe.match_ '\n' name.toList := by
  have hplain : counterNamed.plain :=
    ⟨plain_word _, trivial, plain_word _, plain_word _, plain_word _⟩
  have hlast : ∀ w ∈ counterNamed.language, w.getLast? ≠ some '\n' := by
    intro w hw
    obtain ⟨digits, up, -, -, rfl⟩ := mem_counterNamed.1 hw
    exact getLast?_counterText
  rw [Bool.eq_iff_iff, counterRe, match_chomp hplain hlast, mem_counterNamed,
    Option.isSome_iff_exists, Prod.exists]
  constructor
  · rintro ⟨p, up, h⟩
    obtain ⟨digits, hlen, hall, hname, -⟩ := counterName_eq_some.1 h
    exact ⟨digits, up, hlen, hall, hname⟩
  · rintro ⟨digits, up, hlen, hall, hname⟩
    exact ⟨_, up, counterName_eq_some.2 ⟨digits, hlen, hall, hname, rfl⟩⟩

section Int
variable {digit : Char → Option ℕ} (hdigit : ∀ c, c.isDigit → digit c = some (c.toNat - 48))
include hdigit

/-- On what the patterns let through, `int` reads the digits and skips the newline. -/
theorem int_chomp {value : String} (h : (chomp value.toList).all Char.isDigit = true)
    (hne : chomp value.toList ≠ []) (hlen : (chomp value.toList).length < Literal.maxDigits) :
    int digit value = .ok (decimal (chomp value.toList)) := by
  obtain ⟨rest, hvalue, hone, hrest⟩ : ∃ rest, value.toList = chomp value.toList ++ rest ∧
      rest.length ≤ 1 ∧ ∀ c ∈ rest, Literal.isSpace c = true := by
    rcases (chomp_eq_digits h).1 rfl with hvalue | hvalue
    · exact ⟨[], by rw [List.append_nil]; exact hvalue, by simp, by simp⟩
    · refine ⟨['\n'], hvalue, by simp, fun c hc => ?_⟩
      rw [List.mem_singleton.1 hc]
      rfl
  have hint := Literal.ofText_digits hdigit h hne hrest (by rw [List.length_append]; omega)
  rw [← hvalue] at hint
  rw [int, hint]
  rfl

/-- `parse_port` as the source writes it. -/
theorem parsePort_eq (value : String) : parsePort value = (do
    if ¬ portRe.match_ '\n' value.toList then throw (.ctl "invalid port")
    let port ← int digit value
    if ¬ (slotPortBase ≤ port ∧ port ≤ slotPortLast) then throw (.ctl "port out of range")
    return port) := by
  by_cases hmatch : portRe.match_ '\n' value.toList = true
  · obtain ⟨hlen, hall⟩ := portRe_match.1 hmatch
    have hne : chomp value.toList ≠ [] := List.ne_nil_of_length_eq_add_one hlen
    have hint := int_chomp hdigit hall hne (by rw [hlen]; decide)
    by_cases hrange : slotPortBase ≤ decimal (chomp value.toList) ∧
      decimal (chomp value.toList) ≤ slotPortLast
    · simp [parsePort, hmatch, hlen, hall, hint, hrange, bind, Except.bind, pure, Except.pure]
    · simp [parsePort, hmatch, hlen, hall, hint, hrange, bind, Except.bind, throw, throwThe,
        MonadExceptOf.throw]
  · have hno := mt portRe_match.2 hmatch
    simp only [parsePort, hno, hmatch, not_false_eq_true, if_true]
    rfl

/-- `parse_shard` as the source writes it. -/
theorem parseShard_eq (value : String) : parseShard value = (do
    if ¬ shardRe.match_ '\n' value.toList then throw (.ctl "invalid shard")
    if (← int digit value) ≥ maxShards then throw (.ctl "invalid shard")
    int digit value) := by
  by_cases hmatch : shardRe.match_ '\n' value.toList = true
  · have hshard := shardRe_match.1 hmatch
    obtain ⟨hall, hne⟩ := isShardNumber_digits hshard
    have hint := int_chomp hdigit hall hne ((isShardNumber_iff.1 hshard).2.trans_lt (by decide))
    by_cases hrange : maxShards ≤ decimal (chomp value.toList)
    · simp [parseShard, hmatch, hshard, hint, hrange, bind, Except.bind, throw, throwThe,
        MonadExceptOf.throw]
    · simp [parseShard, hmatch, hshard, hint, hrange, bind, Except.bind]
  · have hno := mt shardRe_match.2 hmatch
    simp [parseShard, hno, hmatch, throw, throwThe, MonadExceptOf.throw, bind, Except.bind]

end Int

/-! ## Renderings -/

/-- On `s` the parser returns the number that `s` is the rendering of, or refuses it. -/
structure ReadsRendering (parse : String → Except Exn ℤ) (low high : ℤ) (s : String) : Prop where
  reads : ∀ n, parse s = .ok n ↔ Rendering low high s n
  refuses : (∀ n, ¬ Rendering low high s n) → ∃ msg, parse s = .error (.ctl msg)

/-- `parse_ports` returns the values of its arguments, each once and in their order, or refuses
them; `accepts v n`: the argument `v` stands for `n`. -/
structure ReadsAll (accepts : String → ℤ → Prop) (values : List String) : Prop where
  reads : values ≠ [] → (∀ v ∈ values, ∃ n, accepts v n) → ∃ ports, parsePorts values = .ok ports ∧
    ports.Pairwise (· < ·) ∧ ∀ n, n ∈ ports ↔ ∃ v ∈ values, accepts v n
  refuses : (values = [] ∨ ∃ v ∈ values, ∀ n, ¬ accepts v n) →
    ∃ msg, parsePorts values = .error (.ctl msg)

theorem append_newline_ne {s : String} : s ++ "\n" ≠ s := by
  intro h
  have hlen := congrArg String.length h
  rw [String.length_append, show "\n".length = 1 from rfl] at hlen
  omega

section Renderings
variable {parse : String → Except Exn ℤ} {low high : ℤ} {s : String} {values : List String}

/-- A parser that lets a newline pass reads renderings where there is none. -/
theorem readsRendering_iff
    (hok : ∀ n, parse s = .ok n ↔ low ≤ n ∧ n ≤ high ∧ (s = toString n ∨ s = toString n ++ "\n"))
    (herror : ∀ e, parse s = .error e → ∃ msg, e = .ctl msg) :
    ReadsRendering parse low high s ↔ ¬ NewlineBehind low high s := by
  constructor
  · rintro ⟨hreads, -⟩ ⟨n, hlow, hhigh, hs⟩
    have hrendering := (hreads n).1 ((hok n).2 ⟨hlow, hhigh, .inr hs⟩)
    rw [hs] at hrendering
    exact append_newline_ne hrendering.2.2
  · intro hno
    have hreads : ∀ n, parse s = .ok n ↔ Rendering low high s n := by
      intro n
      rw [hok]
      constructor
      · rintro ⟨hlow, hhigh, hs | hs⟩
        · exact ⟨hlow, hhigh, hs⟩
        · exact absurd ⟨n, hlow, hhigh, hs⟩ hno
      · exact fun h => ⟨h.1, h.2.1, .inl h.2.2⟩
    refine ⟨hreads, fun hnone => ?_⟩
    cases hparse : parse s with
    | ok n => exact absurd ((hreads n).1 hparse) (hnone n)
    | error e =>
      obtain ⟨msg, rfl⟩ := herror e hparse
      exact ⟨msg, rfl⟩

/-- What `parse_ports` makes of `parse_port`. -/
theorem parsePorts_readsAll (values : List String) :
    ReadsAll (fun v n => parsePort v = .ok n) values := by
  constructor
  · intro hne hall
    cases hm : values.mapM parsePort with
    | error e =>
      obtain ⟨v, hv, hve⟩ := mapM_eq_error hm
      obtain ⟨n, hn⟩ := hall v hv
      rw [hn] at hve
      simp at hve
    | ok parsed =>
      have hforall := mapM_eq_ok.1 hm
      refine ⟨sortedSet parsed, by simp [parsePorts, hne, hm, Except.map], sortedSet_pairwise parsed, fun n => ?_⟩
      rw [mem_sortedSet]
      constructor
      · exact forall₂_mem_right hforall n
      · rintro ⟨v, hv, hn⟩
        obtain ⟨m, hm, hvm⟩ := forall₂_mem_left hforall v hv
        rw [hn] at hvm
        rwa [Except.ok.inj hvm]
  · intro hbad
    cases hports : parsePorts values with
    | error e =>
      obtain ⟨msg, rfl⟩ := parsePorts_error hports
      exact ⟨msg, rfl⟩
    | ok ports =>
      obtain ⟨-, hne, hargs⟩ := parsePorts_ok hports
      rcases hbad with rfl | ⟨v, hv, hno⟩
      · exact absurd rfl hne
      · obtain ⟨n, hn⟩ := accepted_iff.1 (hargs v hv)
        exact absurd (parsePort_reads.2 hn) (hno n)

/-- It reads renderings, unless all arguments are accepted and one has a newline. -/
theorem readsAll_iff :
    ReadsAll (Rendering 20000 29999) values ↔ ¬ ((∃ v ∈ values, NewlineBehind 20000 29999 v) ∧
    ∀ v ∈ values, (∃ n, Rendering 20000 29999 v n) ∨ NewlineBehind 20000 29999 v) := by
  have hports := parsePorts_readsAll values
  have haccepted : ∀ v, ((∃ n, Rendering 20000 29999 v n) ∨ NewlineBehind 20000 29999 v) ↔
      ∃ n, parsePort v = .ok n := by
    intro v
    constructor
    · rintro (⟨n, hlow, hhigh, hv⟩ | ⟨n, hlow, hhigh, hv⟩)
      · exact ⟨n, parsePort_reads.2 ⟨hlow, hhigh, .inl hv⟩⟩
      · exact ⟨n, parsePort_reads.2 ⟨hlow, hhigh, .inr hv⟩⟩
    · rintro ⟨n, hn⟩
      obtain ⟨hlow, hhigh, hv | hv⟩ := parsePort_reads.1 hn
      · exact .inl ⟨n, hlow, hhigh, hv⟩
      · exact .inr ⟨n, hlow, hhigh, hv⟩
  constructor
  · rintro ⟨-, hrefuses⟩ ⟨⟨v, hv, k, hlow, hhigh, rfl⟩, hall⟩
    have hk := parsePort_reads.2 ⟨hlow, hhigh, .inr rfl⟩
    have hnot : ∀ n, ¬ Rendering 20000 29999 (toString k ++ "\n") n := by
      rintro n ⟨hlow', hhigh', hs⟩
      have hn := parsePort_reads.2 ⟨hlow', hhigh', .inl hs⟩
      obtain rfl := Except.ok.inj (hk.symm.trans hn)
      exact append_newline_ne hs
    obtain ⟨msg, herror⟩ := hrefuses (.inr ⟨_, hv, hnot⟩)
    have hne : values ≠ [] := List.ne_nil_of_mem hv
    obtain ⟨ports, hok, -⟩ := hports.reads hne fun v hv => (haccepted v).1 (hall v hv)
    rw [hok] at herror
    simp at herror
  · intro hcond
    by_cases hall : ∀ v ∈ values, ∃ n, parsePort v = .ok n
    · have hnone : ∀ v ∈ values, ¬ NewlineBehind 20000 29999 v := fun v hv hnl =>
        hcond ⟨⟨v, hv, hnl⟩, fun v hv => (haccepted v).2 (hall v hv)⟩
      have hsame : ∀ v ∈ values, ∀ n, parsePort v = .ok n ↔ Rendering 20000 29999 v n := fun v hv =>
        ((readsRendering_iff (fun _ => parsePort_reads) fun _ => parsePort_error).2
          (hnone v hv)).reads
      constructor
      · intro hne _
        obtain ⟨ports, hok, hsorted, hmem⟩ := hports.reads hne hall
        refine ⟨ports, hok, hsorted, fun n => (hmem n).trans ?_⟩
        exact exists_congr fun v => and_congr_right fun hv => hsame v hv n
      · rintro (hnil | ⟨v, hv, hno⟩)
        · exact hports.refuses (.inl hnil)
        · exact hports.refuses (.inr ⟨v, hv, fun n hn => hno n ((hsame v hv n).1 hn)⟩)
    · obtain ⟨v, hv, hno⟩ : ∃ v ∈ values, ∀ n, parsePort v ≠ .ok n := by
        by_contra hnone
        refine hall fun v hv => ?_
        by_contra hv'
        exact hnone ⟨v, hv, fun n hn => hv' ⟨n, hn⟩⟩
      have hrefused := hports.refuses (.inr ⟨v, hv, hno⟩)
      refine ⟨fun _ hrenderings => ?_, fun _ => hrefused⟩
      obtain ⟨n, hn⟩ := (haccepted v).1 (.inl (hrenderings v hv))
      exact absurd hn (hno n)

/-- Each parser is right on an argument just if no newline is behind its number, and `parse_ports`
is as right as `parse_port`. -/
theorem arguments_read_iff (s : String) (values : List String) :
    (ReadsRendering parsePort 20000 29999 s ↔ ¬ NewlineBehind 20000 29999 s) ∧
    (ReadsRendering parseShard 0 624 s ↔ ¬ NewlineBehind 0 624 s) ∧
    (ReadsAll (Rendering 20000 29999) values ↔ ¬ ((∃ v ∈ values, NewlineBehind 20000 29999 v) ∧
      ∀ v ∈ values, (∃ n, Rendering 20000 29999 v n) ∨ NewlineBehind 20000 29999 v)) ∧
    ReadsAll (fun v n => parsePort v = .ok n) values := by
  refine ⟨?port, ?shard, readsAll_iff, parsePorts_readsAll values⟩
  case port => exact readsRendering_iff (fun _ => parsePort_reads) fun _ => parsePort_error
  case shard => exact readsRendering_iff (fun _ => parseShard_reads) fun _ => parseShard_error

theorem newline_accepted :
    parsePort "20000\n" = .ok 20000 ∧ ¬ ReadsRendering parsePort 20000 29999 "20000\n" ∧
    parseShard "3\n" = .ok 3 ∧ ¬ ReadsRendering parseShard 0 624 "3\n" ∧
    parsePorts ["20000\n", "20000"] = .ok [20000] ∧
      ¬ ReadsAll (Rendering 20000 29999) ["20000\n", "20000"] := by
  have hport : NewlineBehind 20000 29999 "20000\n" := ⟨20000, by decide, by decide, rfl⟩
  have hshard : NewlineBehind 0 624 "3\n" := ⟨3, by decide, by decide, rfl⟩
  refine ⟨parsePort_reads.2 ⟨by decide, by decide, .inr rfl⟩, fun h => ?_,
    parseShard_reads.2 ⟨by decide, by decide, .inr rfl⟩, fun h => ?_, ?_, fun h => ?_⟩
  · exact (readsRendering_iff (fun _ => parsePort_reads) fun _ => parsePort_error).1 h hport
  · exact (readsRendering_iff (fun _ => parseShard_reads) fun _ => parseShard_error).1 h hshard
  · decide
  · refine readsAll_iff.1 h ⟨⟨_, List.mem_cons_self, hport⟩, ?_⟩
    have hplain : Rendering 20000 29999 "20000" 20000 := ⟨by decide, by decide, rfl⟩
    simp [hport, (⟨20000, hplain⟩ : ∃ n, Rendering 20000 29999 "20000" n)]

end Renderings

end Ctl

/-! ## Parts of a link -/

namespace ClientLinks
open Pattern Encoding

/-- `[0-9a-f]{32}` -/
def secretRe : Pattern Char := rep (one isHexDigit) 32 32

/-- `[A-Za-z0-9][A-Za-z0-9_-]*` -/
def segmentRe : Pattern Char :=
  seq (one Char.isAlphanum) (star (one fun c => c.isAlphanum || c = '_' || c = '-'))

theorem isSecret_eq {secretHex : String} :
    isSecret secretHex = secretRe.fullmatch '\n' secretHex.toList := by
  rw [Bool.eq_iff_iff, secretRe, fullmatch_iff (r := rep (one isHexDigit) 32 32) trivial,
    mem_rep_one, isSecret, Bool.and_eq_true, decide_eq_true_eq]
  constructor
  · exact fun h => ⟨by omega, by omega, h.2⟩
  · exact fun h => ⟨by omega, h.2.2⟩

theorem isSegment_eq {segment : List Char} :
    isSegment segment = segmentRe.fullmatch '\n' segment := by
  rw [Bool.eq_iff_iff, segmentRe, fullmatch_iff (r := seq (one Char.isAlphanum) (star (one _)))
    ⟨trivial, trivial⟩]
  constructor
  · intro h
    cases segment with
    | nil => simp [isSegment] at h
    | cons c cs =>
      rw [isSegment, Bool.and_eq_true] at h
      exact ⟨[c], ⟨c, h.1, rfl⟩, cs, mem_star_one.2 h.2, rfl⟩
  · rintro ⟨_, ⟨c, hc, rfl⟩, cs, hcs, rfl⟩
    show isSegment (c :: cs) = true
    rw [isSegment, Bool.and_eq_true]
    exact ⟨hc, mem_star_one.1 hcs⟩

end ClientLinks

end WebProxyPanel
