import WebProxyPanel.Script
import WebProxyPanel.Sync
/-!
# Counters by name

`build_ruleset` and `parse_counters` agree only through the names `c<port>_up` and `c<port>_down`.
What is read from a listing is the last value given for each half of each port.
-/

namespace WebProxyPanel
namespace Ctl

def direction (up : Bool) : String := if up then "up" else "down"

theorem chomp_of_no_newline {cs : List Char} (h : '\n' ∉ cs) : chomp cs = cs :=
  if_neg fun hl => h (List.mem_of_getLast? hl)

/-- `c`, five digits, and one of the directions. -/
def CounterShape (name : String) : Prop :=
  ∃ (digits : List Char) (up : Bool), digits.length = 5 ∧ digits.all Char.isDigit ∧
    name.toList = 'c' :: (digits ++ '_' :: (direction up).toList)

/-- The digits are the first group and the direction is the second. -/
theorem counterName_eq_some {name : String} {p : ℤ} {up : Bool} : counterName name = some (p, up) ↔
    ∃ digits : List Char, digits.length = 5 ∧ digits.all Char.isDigit ∧
      chomp name.toList = 'c' :: (digits ++ '_' :: (direction up).toList) ∧ p = decimal digits := by
  constructor
  · intro h
    unfold counterName at h
    split at h
    · rename_i cs hcs
      have hsplit : ∀ dir : Bool, cs.drop 5 = '_' :: (direction dir).toList →
          chomp name.toList = 'c' :: (cs.take 5 ++ '_' :: (direction dir).toList) := by
        intro dir hdir
        rw [← hdir, List.take_append_drop]
        exact hcs
      split at h
      · rename_i hfive
        split at h
        · rename_i hup
          obtain ⟨rfl, rfl⟩ := Prod.mk.inj (Option.some.inj h)
          exact ⟨_, hfive.1, hfive.2, hsplit true hup, rfl⟩
        · split at h
          · rename_i hdown
            obtain ⟨rfl, rfl⟩ := Prod.mk.inj (Option.some.inj h)
            exact ⟨_, hfive.1, hfive.2, hsplit false hdown, rfl⟩
          · simp at h
      · simp at h
    · simp at h
  · rintro ⟨digits, hlen, hdigits, hname, rfl⟩
    have htake : (digits ++ '_' :: (direction up).toList).take 5 = digits := by
      rw [← hlen, List.take_left']
      rfl
    have hdrop : (digits ++ '_' :: (direction up).toList).drop 5 =
        '_' :: (direction up).toList := by
      rw [← hlen, List.drop_left']
      rfl
    rw [counterName, hname]
    simp only [htake, hdrop]
    rw [if_pos ⟨hlen, hdigits⟩]
    cases up
    · rfl
    · rfl

theorem getLast?_counterText {digits : List Char} {up : Bool} :
    ('c' :: (digits ++ '_' :: (direction up).toList)).getLast? ≠ some '\n' := by
  intro hl
  cases up <;> simp [direction, List.getLast?_cons, List.getLast?_append] at hl

theorem counterName_shape {name : String} {digits : List Char} {up : Bool}
    (hlen : digits.length = 5) (hdigits : digits.all Char.isDigit)
    (hname : name.toList = 'c' :: (digits ++ '_' :: (direction up).toList)) :
    counterName name = some (decimal digits, up) := by
  have hlast : chomp name.toList = name.toList := by
    refine if_neg ?_
    rw [hname]
    exact getLast?_counterText
  exact counterName_eq_some.2 ⟨digits, hlen, hdigits, hlast.trans hname, rfl⟩

theorem counterName_eq_none {name : String} (h : ¬CounterShape name) (hnl : '\n' ∉ name.toList) :
    counterName name = none := by
  refine Option.eq_none_iff_forall_ne_some.2 fun ⟨p, up⟩ hsome => ?_
  obtain ⟨digits, hlen, hdigits, hname, -⟩ := counterName_eq_some.1 hsome
  rw [chomp_of_no_newline hnl] at hname
  exact h ⟨digits, up, hlen, hdigits, hname⟩

/-- The name that is declared for a port reads back as the port and the direction. -/
theorem counterName_counterText {p : ℤ} (h : slotPortBase ≤ p ∧ p ≤ slotPortLast) (up : Bool) :
    counterName (counterText p (direction up)) = some (p, up) := by
  unfold slotPortBase slotPortLast at h
  obtain ⟨n, rfl⟩ := Int.eq_ofNat_of_zero_le (show 0 ≤ p by omega)
  have hname : (counterText n (direction up)).toList =
      'c' :: (Nat.toDigits 10 n ++ '_' :: (direction up).toList) := by
    rw [← toList_toString_natCast]
    simp only [counterText, String.toList_append, List.append_assoc]
    rfl
  rw [counterName_shape (length_toDigits_eq_five (by omega) (by omega))
    (Decimal.canonical_toDigits n).1 hname, decimal_toDigits]

/-! ## A listing of the table -/

def field (kvs : List (String × Json)) (key : String) : Option Json :=
  (kvs.find? (·.1 = key)).map (·.2)

theorem get_obj (kvs : List (String × Json)) (key : String) (default : Json) :
    (Json.obj kvs).get key default = .ok ((field kvs key).getD default) := rfl

/-- An item that is no counter, or a counter of another name. A name that nft knows has no newline.
-/
inductive Foreign : Json → Prop
  | other {kvs : List (String × Json)} (h : field kvs "counter" = none) : Foreign (.obj kvs)
  | empty {kvs : List (String × Json)} {x : Json} (h : field kvs "counter" = some x)
      (hx : x.truth = false) :
    Foreign (.obj kvs)
  | unnamed {kvs c : List (String × Json)} (h : field kvs "counter" = some (.obj c))
      (hn : field c "name" = none) :
    Foreign (.obj kvs)
  | named {kvs c : List (String × Json)} {name : String} (h : field kvs "counter" = some (.obj c))
    (hn : field c "name" = some (.str name)) (hs : ¬CounterShape name) (hnl : '\n' ∉ name.toList) :
    Foreign (.obj kvs)

/-- The counters of these names with these bytes, in this order, and foreign items in between. -/
inductive Lists (bytes : String → ℤ) : List Json → List String → Prop
  | nil : Lists bytes [] []
  | foreign {item : Json} {items : List Json} {names : List String} (h : Foreign item)
    (hrest : Lists bytes items names) : Lists bytes (item :: items) names
  | counter {kvs c : List (String × Json)} {name : String} {items : List Json} {names : List String}
    (h : field kvs "counter" = some (.obj c)) (hn : field c "name" = some (.str name))
    (hb : field c "bytes" = some (.int (bytes name))) (hrest : Lists bytes items names) :
    Lists bytes (.obj kvs :: items) (name :: names)

variable {bytes : String → ℤ} {items : List Json} {names : List String}

theorem parseCounter_falsy (py : Python) (pairs : List (ℤ × ℤ × ℤ)) {kvs : List (String × Json)}
    (h : ((field kvs "counter").getD .null).truth = false) :
    parseCounter py pairs (.obj kvs) = .ok pairs := by
  simp only [parseCounter, get_obj]
  exact if_pos (by rw [h]; decide)

theorem parseCounter_named (py : Python) (pairs : List (ℤ × ℤ × ℤ)) {kvs c : List (String × Json)}
    {name : String} (h : field kvs "counter" = some (.obj c)) (hc : c ≠ [])
    (hn : (field c "name").getD (.str "") = .str name) :
    parseCounter py pairs (.obj kvs) =
      match counterName name with
      | none => .ok pairs
      | some (port, up) =>
        do return setCounter port up (← ((field c "bytes").getD (.int 0)).toInt py) pairs := by
  have htruth : ¬¬(Json.obj c).truth = true := by
    rw [not_not, Json.truth]
    simpa using hc
  simp only [parseCounter, get_obj, h, Option.getD_some]
  refine (if_neg htruth).trans ?_
  simp only [get_obj, hn]
  rfl

theorem parseCounter_foreign (py : Python) (pairs : List (ℤ × ℤ × ℤ)) {item : Json}
    (h : Foreign item) : parseCounter py pairs item = .ok pairs := by
  cases h with
  | other h =>
    apply parseCounter_falsy
    rw [h]
    rfl
  | empty h hx =>
    apply parseCounter_falsy
    rw [h]
    exact hx
  | @unnamed _ c h hn =>
    by_cases hc : c = []
    · subst hc
      apply parseCounter_falsy
      rw [h]
      rfl
    · rw [parseCounter_named py pairs h hc (by rw [hn]; rfl)]
      rfl
  | @named _ c name h hn hs hnl =>
    have hc : c ≠ [] := by
      rintro rfl
      exact absurd hn (by simp [field])
    rw [parseCounter_named py pairs h hc (by rw [hn]; rfl), counterName_eq_none hs hnl]

theorem parseCounter_counter (py : Python) (pairs : List (ℤ × ℤ × ℤ)) {kvs c : List (String × Json)}
    {name : String} {port value : ℤ} {up : Bool} (h : field kvs "counter" = some (.obj c))
    (hn : field c "name" = some (.str name)) (hb : field c "bytes" = some (.int value))
    (hname : counterName name = some (port, up)) :
    parseCounter py pairs (.obj kvs) = .ok (setCounter port up value pairs) := by
  have hc : c ≠ [] := by
    rintro rfl
    exact absurd hn (by simp [field])
  rw [parseCounter_named py pairs h hc (by rw [hn]; rfl), hname, hb]
  rfl

/-! ## What is read of it -/

/-- One half of a pair replaced. -/
def setHalf (up : Bool) (value : ℤ) (pair : ℤ × ℤ) : ℤ × ℤ :=
  if up then (value, pair.2) else (pair.1, value)

theorem setCounter_eq (port : ℤ) (up : Bool) (value : ℤ) (pairs : List (ℤ × ℤ × ℤ)) :
    setCounter port up value pairs =
      if pairs.any (fun kv => decide (kv.1 = port)) then
        Table.update (fun kv => decide (kv.1 = port))
          (fun _ => (port, setHalf up value ((pairs.lookup port).getD (0, 0)))) pairs
      else pairs ++ [(port, setHalf up value ((pairs.lookup port).getD (0, 0)))] := by
  simp only [setCounter, Table.find?_map_snd, Table.update, decide_eq_true_eq]
  rfl

theorem lookup_setCounter (port other : ℤ) (up : Bool) (value : ℤ) (pairs : List (ℤ × ℤ × ℤ)) :
    (setCounter port up value pairs).lookup other =
      if other = port then some (setHalf up value ((pairs.lookup port).getD (0, 0))) else
        pairs.lookup other := by
  rw [setCounter_eq]
  exact Table.lookup_upsert port other _ pairs

theorem nodup_setCounter (port : ℤ) (up : Bool) (value : ℤ) {pairs : List (ℤ × ℤ × ℤ)}
    (h : (pairs.map Prod.fst).Nodup) : ((setCounter port up value pairs).map Prod.fst).Nodup := by
  rw [setCounter_eq]
  exact Table.nodup_upsert port _ h

/-- The names are those of counters of slot ports. -/
def Named (names : List String) : Prop :=
  ∀ name ∈ names, ∃ p up, (slotPortBase ≤ p ∧ p ≤ slotPortLast) ∧
    name = counterText p (direction up)

/-- What the pair of a port becomes once the counters of these names are read. -/
def readPair (bytes : String → ℤ) (names : List String) (p : ℤ) (pair : Option (ℤ × ℤ)) :
    Option (ℤ × ℤ) :=
  names.foldl (fun pair name =>
    match counterName name with
    | some (q, up) => if p = q then some (setHalf up (bytes name) (pair.getD (0, 0))) else pair
    | none => pair) pair

theorem foldlM_parseCounter (py : Python) (h : Lists bytes items names) (hn : Named names)
    {pairs : List (ℤ × ℤ × ℤ)} (hnodup : (pairs.map Prod.fst).Nodup) :
    ∃ pairs', items.foldlM (parseCounter py) pairs = .ok pairs' ∧ (pairs'.map Prod.fst).Nodup ∧
      ∀ p, pairs'.lookup p = readPair bytes names p (pairs.lookup p) := by
  induction h generalizing pairs with
  | nil => exact ⟨pairs, rfl, hnodup, fun _ => rfl⟩
  | foreign hf _ ih =>
    rw [List.foldlM_cons, parseCounter_foreign py pairs hf]
    exact ih hn hnodup
  | @counter kvs c name items names hc hname hb _ ih =>
    obtain ⟨p, up, hp, rfl⟩ := hn name List.mem_cons_self
    have hread := counterName_counterText hp up
    rw [List.foldlM_cons, parseCounter_counter py pairs hc hname hb hread]
    obtain ⟨pairs', hpairs', hnodup', hlookup⟩ :=
      ih (fun other ho => hn other (List.mem_cons_of_mem _ ho)) (nodup_setCounter p up _ hnodup)
    refine ⟨pairs', hpairs', hnodup', fun q => ?_⟩
    rw [hlookup, lookup_setCounter, readPair, readPair, List.foldl_cons, hread]
    by_cases hq : q = p
    · subst hq
      rfl
    · rw [if_neg hq]
      simp only [if_neg hq]

theorem counterText_eq_iff {p q : ℤ} (hp : slotPortBase ≤ p ∧ p ≤ slotPortLast)
    (hq : slotPortBase ≤ q ∧ q ≤ slotPortLast) {v up : Bool} :
    counterText p (direction v) = counterText q (direction up) ↔ p = q ∧ v = up := by
  constructor
  · intro h
    have hread := counterName_counterText hp v
    rw [h, counterName_counterText hq up, Option.some.injEq, Prod.mk.injEq] at hread
    exact ⟨hread.1.symm, hread.2.symm⟩
  · rintro ⟨rfl, rfl⟩
    rfl

def half (up : Bool) (pair : ℤ × ℤ) : ℤ := if up then pair.1 else pair.2

theorem half_setHalf (up v : Bool) (value : ℤ) (pair : ℤ × ℤ) :
    half v (setHalf up value pair) = if v = up then value else half v pair := by
  cases up <;> cases v <;> rfl

theorem readPair_cons (name : String) {p q : ℤ} {up : Bool} (pair : Option (ℤ × ℤ))
    (hread : counterName name = some (q, up)) :
    readPair bytes (name :: names) p pair =
      readPair bytes names p (if p = q then some (setHalf up (bytes name) (pair.getD (0, 0)))
        else pair) := by
  rw [readPair, List.foldl_cons, hread]
  rfl

/-- A port that no name is about keeps what it had. -/
theorem readPair_other {p : ℤ} {pair : Option (ℤ × ℤ)} (hn : Named names)
    (h : ∀ name ∈ names, ∀ up, counterName name ≠ some (p, up)) :
    readPair bytes names p pair = pair := by
  induction names with
  | nil => rfl
  | cons name names ih =>
    obtain ⟨q, up, hq, rfl⟩ := hn name List.mem_cons_self
    have hread := counterName_counterText hq up
    have hne : p ≠ q := by
      rintro rfl
      exact h _ List.mem_cons_self up hread
    rw [readPair_cons _ _ hread, if_neg hne]
    exact ih (fun other ho => hn other (List.mem_cons_of_mem _ ho)) fun other ho =>
      h other (List.mem_cons_of_mem _ ho)

/-- A half that is named has the value of its name, the other keeps what it had. -/
theorem half_readPair {p : ℤ} (hp : slotPortBase ≤ p ∧ p ≤ slotPortLast) (hn : Named names)
    (v : Bool) (pair : Option (ℤ × ℤ)) :
    half v ((readPair bytes names p pair).getD (0, 0)) =
      if counterText p (direction v) ∈ names then bytes (counterText p (direction v)) else
        half v (pair.getD (0, 0)) := by
  induction names generalizing pair with
  | nil => rfl
  | cons name names ih =>
    obtain ⟨q, up, hq, rfl⟩ := hn name List.mem_cons_self
    rw [readPair_cons _ _ (counterName_counterText hq up), ih fun other ho =>
      hn other (List.mem_cons_of_mem _ ho)]
    by_cases hmem : counterText p (direction v) ∈ names
    · rw [if_pos hmem, if_pos (List.mem_cons_of_mem _ hmem)]
    · simp only [if_neg hmem, List.mem_cons, counterText_eq_iff hp hq]
      by_cases hpq : p = q
      · subst hpq
        rw [if_pos rfl, Option.getD_some, half_setHalf]
        by_cases hv : v = up
        · subst hv
          rw [if_pos rfl, if_pos (.inl ⟨rfl, rfl⟩)]
        · rw [if_neg hv, if_neg (by simp [hv, hmem])]
      · rw [if_neg hpq, if_neg (by simp [hpq, hmem])]

theorem isSome_readPair {p : ℤ} (hp : slotPortBase ≤ p ∧ p ≤ slotPortLast) {v : Bool}
    (hn : Named names) {pair : Option (ℤ × ℤ)}
    (h : pair.isSome ∨ counterText p (direction v) ∈ names) :
    (readPair bytes names p pair).isSome := by
  induction names generalizing pair with
  | nil => exact h.resolve_right List.not_mem_nil
  | cons name names ih =>
    obtain ⟨q, up, hq, rfl⟩ := hn name List.mem_cons_self
    rw [readPair_cons _ _ (counterName_counterText hq up)]
    refine ih (fun other ho => hn other (List.mem_cons_of_mem _ ho)) ?_
    by_cases hpq : p = q
    · exact .inl (by rw [if_pos hpq]; rfl)
    · rw [if_neg hpq]
      refine h.imp_right fun hm => (List.mem_cons.1 hm).resolve_left fun heq => ?_
      exact hpq ((counterText_eq_iff hp hq).1 heq).1

/-! ## The two together -/

/-- Ports that can be slots. -/
def SlotPorts (ports : List ℤ) : Prop := ∀ p ∈ ports, slotPortBase ≤ p ∧ p ≤ slotPortLast

theorem readScript_buildRuleset {ports : List ℤ} (h : SlotPorts ports) (blocked : List ℤ) :
    readScript (buildRuleset ports blocked).text = declared (buildRuleset ports blocked) := by
  have hports : ∀ p ∈ (buildRuleset ports blocked).ports, 0 ≤ p := by
    intro p hp
    have := (h p (mem_sortedSet.1 hp)).1
    unfold slotPortBase at this
    omega
  refine readScript_text hports fun p hp => hports p ?_
  simp only [buildRuleset, mem_sortedSet, List.mem_filter, decide_eq_true_eq] at hp ⊢
  exact hp.2

theorem mem_flatMap_counterNames {ports : List ℤ} {name : String} :
    name ∈ ports.flatMap counterNames ↔ ∃ p ∈ ports, name = counterText p "up" ∨
      name = counterText p "down" := by
  simp only [List.mem_flatMap, counterNames, List.mem_cons, List.not_mem_nil, or_false]

theorem nodup_counterNames {ports : List ℤ} (h : SlotPorts ports) (hnodup : ports.Nodup) :
    (ports.flatMap counterNames).Nodup := by
  refine List.nodup_flatMap.2 ⟨fun p hp => ?_, ?_⟩
  · have hne : counterText p (direction true) ≠ counterText p (direction false) := fun he =>
      absurd ((counterText_eq_iff (h p hp) (h p hp)).1 he).2 (by decide)
    exact List.nodup_cons.2 ⟨mt List.mem_singleton.1 hne, List.nodup_singleton _⟩
  · refine hnodup.imp_of_mem fun {p q} hp hq hpq name hname hname' => hpq ?_
    have hdir : ∀ {p : ℤ} {name : String}, name ∈ counterNames p →
        ∃ up, name = counterText p (direction up) := by
      intro p name hm
      simp only [counterNames, List.mem_cons, List.not_mem_nil, or_false] at hm
      rcases hm with rfl | rfl
      · exact ⟨true, rfl⟩
      · exact ⟨false, rfl⟩
    obtain ⟨up, rfl⟩ := hdir hname
    obtain ⟨v, hv⟩ := hdir hname'
    exact ((counterText_eq_iff (h p hp) (h q hq)).1 hv).1

theorem says_buildRuleset {ports : List ℤ} (h : SlotPorts ports) (blocked : List ℤ) :
    Says (readScript (buildRuleset ports blocked).text) ports blocked := by
  have hnodup : (sortedSet ports).Nodup := (sortedSet_pairwise ports).imp ne_of_lt
  rw [readScript_buildRuleset h]
  constructor
  · rw [declaredCounters_declared]
    exact nodup_counterNames (fun p hp => h p (mem_sortedSet.1 hp)) hnodup
  · intro name
    rw [declaredCounters_declared, mem_flatMap_counterNames]
    simp only [buildRuleset, mem_sortedSet]
  · refine ⟨_, declaredSets_declared _, (sortedSet_pairwise _).imp ne_of_lt, fun p => ?_⟩
    simp only [buildRuleset, mem_sortedSet, List.mem_filter, decide_eq_true_eq]
  · exact ⟨_, _, declaredMaps_declared _, binds_ports hnodup (fun _ => mem_sortedSet) "up",
      binds_ports hnodup (fun _ => mem_sortedSet) "down"⟩

/-- The counters of a listing, whatever their order and whatever stands between them, give each port
its bytes. -/
theorem parseCounters_lists (py : Python) {ports : List ℤ} (h : SlotPorts ports) {data : Json}
    (hdata : data.get "nftables" (.arr []) = .ok (.arr items)) (hl : Lists bytes items names)
    (hnames : ∀ name, name ∈ names ↔ ∃ p ∈ ports, name = counterText p "up" ∨
      name = counterText p "down") :
    ∃ pairs, parseCounters py data = .ok pairs ∧ (pairs.map Prod.fst).Nodup ∧
      ∀ p v, (p, v) ∈ pairs ↔ p ∈ ports ∧
        v = (bytes (counterText p "up"), bytes (counterText p "down")) := by
  have hnamed : Named names := by
    intro name hname
    obtain ⟨p, hp, rfl | rfl⟩ := (hnames name).1 hname
    · exact ⟨p, true, h p hp, rfl⟩
    · exact ⟨p, false, h p hp, rfl⟩
  obtain ⟨pairs, hpairs, hnodup, hlookup⟩ :=
    @foldlM_parseCounter bytes items names py hl hnamed [] List.nodup_nil
  refine ⟨pairs, ?_, hnodup, fun p v => ?_⟩
  · unfold parseCounters
    rw [hdata]
    exact hpairs
  · rw [Table.mem_iff_lookup hnodup, hlookup, List.lookup_nil]
    by_cases hp : p ∈ ports
    · have hmem : ∀ up, counterText p (direction up) ∈ names := by
        intro up
        cases up
        · exact (hnames _).2 ⟨p, hp, .inr rfl⟩
        · exact (hnames _).2 ⟨p, hp, .inl rfl⟩
      have hsome : (readPair bytes names p none).isSome :=
        isSome_readPair (h p hp) hnamed (.inr (hmem true))
      obtain ⟨w, hw⟩ := Option.isSome_iff_exists.1 hsome
      have hhalf : ∀ up, half up w = bytes (counterText p (direction up)) := by
        intro up
        have hup : half up ((readPair bytes names p none).getD (0, 0)) = _ :=
          half_readPair (h p hp) hnamed up none
        rw [hw, if_pos (hmem up)] at hup
        exact hup
      have hpair : w = (bytes (counterText p "up"), bytes (counterText p "down")) :=
        Prod.ext (hhalf true) (hhalf false)
      rw [hw, Option.some.injEq, and_iff_right hp, hpair, eq_comm]
    · rw [readPair_other hnamed]
      · simp [hp]
      · intro name hname up hread
        obtain ⟨q, hq, heq⟩ : ∃ q ∈ ports, ∃ v, name = counterText q (direction v) := by
          obtain ⟨q, hq, heq | heq⟩ := (hnames name).1 hname
          · exact ⟨q, hq, true, heq⟩
          · exact ⟨q, hq, false, heq⟩
        obtain ⟨v, rfl⟩ := heq
        rw [counterName_counterText (h q hq) v, Option.some.injEq, Prod.mk.injEq] at hread
        exact hp (hread.1 ▸ hq)

/-- The script says exactly what the database says, and the names of its counters read back. -/
theorem ruleset_roundTrip (py : Python) {ports : List ℤ} (h : SlotPorts ports) (blocked : List ℤ) :
    Says (readScript (buildRuleset ports blocked).text) ports blocked ∧
      (∀ ports' blocked', (∀ p, p ∈ ports' ↔ p ∈ ports) → (∀ p, p ∈ blocked' ↔ p ∈ blocked) →
        (buildRuleset ports' blocked').text = (buildRuleset ports blocked).text) ∧
      ∀ (bytes : String → ℤ) (data : Json) (items : List Json) (names : List String),
        data.get "nftables" (.arr []) = .ok (.arr items) → Lists bytes items names →
        names.Perm (declaredCounters (readScript (buildRuleset ports blocked).text)) →
        ∃ pairs, parseCounters py data = .ok pairs ∧ (pairs.map Prod.fst).Nodup ∧
          ∀ p v, (p, v) ∈ pairs ↔ p ∈ ports ∧
            v = (bytes (counterText p "up"), bytes (counterText p "down")) := by
  have hsaid := says_buildRuleset h blocked
  refine ⟨hsaid, fun ports' blocked' hp hb => by rw [buildRuleset_congr hp hb], ?_⟩
  intro bytes data items names hdata hl hperm
  exact parseCounters_lists py h hdata hl fun name => (hperm.mem_iff).trans (hsaid.counters name)

def sampleBytes (name : String) : ℤ := if name = "c20000_up" then 5 else 7

/-- A listing of a table with one slot, and of a counter with another name. -/
def sampleItems : List Json :=
  [.obj [("metainfo", .obj [("version", .str "1.0.9")])],
   .obj [("counter", .obj [("name", .str "c20000_down"), ("bytes", .int 7)])],
   .obj [("counter", .obj [("name", .str "c2000_up"), ("bytes", .int 5)])],
   .obj [("counter", .obj [("name", .str "c20000_up"), ("bytes", .int 5)])]]

theorem not_counterShape_short : ¬CounterShape "c2000_up" := by
  rintro ⟨digits, up, hlen, -, hname⟩
  have hcount := congrArg List.length hname
  rw [List.length_cons, List.length_append, List.length_cons, hlen] at hcount
  revert hcount
  cases up <;> decide

theorem lists_sampleItems : Lists sampleBytes sampleItems ["c20000_down", "c20000_up"] := by
  refine .foreign (.other rfl) (.counter rfl rfl rfl (.foreign ?_ (.counter rfl rfl rfl .nil)))
  exact .named rfl rfl not_counterShape_short (by decide)

theorem ruleset_roundTrip_oneSlot :
    Says (readScript (buildRuleset [20000, 20000] [22, 20000]).text) [20000, 20000] [22, 20000] ∧
      ∃ pairs, parseCounters python (.obj [("nftables", .arr sampleItems)]) = .ok pairs ∧
        (pairs.map Prod.fst).Nodup ∧ ∀ p v, (p, v) ∈ pairs ↔ p ∈ [20000, 20000] ∧
          v = (sampleBytes (counterText p "up"), sampleBytes (counterText p "down")) := by
  have hports : SlotPorts [20000, 20000] := by
    unfold SlotPorts
    decide
  obtain ⟨hsaid, -, hread⟩ := ruleset_roundTrip python hports [22, 20000]
  refine ⟨hsaid, hread sampleBytes _ sampleItems _ rfl lists_sampleItems ?_⟩
  rw [readScript_buildRuleset hports, declaredCounters_declared]
  decide

end Ctl
end WebProxyPanel
