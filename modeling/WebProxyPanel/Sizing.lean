import WebProxyPanel.Lib.Double
import WebProxyPanel.Pool
/-!
# Relay and pool sizing (`webproxy/sizing.py`)

| here | there |
| --- | --- |
| the constants, `reserveOk` | sizing.py:11-31 |
| `poolSlots` | `pool_slots` (:34-35) |
| `computeWith`, `compute` | `compute` (:38-102), over any `pool_slots` and over its own |

Every limit is made of integers. Floating point decides the number of slots and what is said about
memory, and a number too large for it raises `OverflowError`.
-/

namespace WebProxyPanel

/-- `d[key]` of a dict that has the key -/
def Dict.value (key : String) (d : Dict) : Int := (d.lookup key).getD 0

namespace Dict

theorem lookup_set (key other : String) (value : Int) (d : Dict) :
    (d.set key value).lookup other = if other = key then some value else d.lookup other :=
  Table.lookup_upsert key other value d

theorem value_set_self (key : String) (value : Int) (d : Dict) :
    (d.set key value).value key = value := by
  simp [Dict.value, lookup_set]

theorem value_set_ne {key other : String} {value : Int} (h : other ≠ key) (d : Dict) :
    (d.set key value).value other = d.value other := by
  simp [Dict.value, lookup_set, h]

theorem mem_set {key : String} {value : Int} {d : Dict} {kv : String × Int}
    (h : kv ∈ d.set key value) : kv ∈ d ∨ kv = (key, value) := by
  unfold Dict.set at h
  split at h
  · obtain ⟨a, ha, rfl⟩ := Table.mem_update.1 h
    split
    · exact .inr rfl
    · exact .inl ha
  · simpa using h

end Dict

namespace Sizing

def mib : Int := 1024 * 1024

def queueItemCost : Int := 256
def frameHeader : Int := 8
def maxStreamsPerSession : Int := 128
def reserveItems : Int := 16 + 3 * maxStreamsPerSession
def reserveCost : Int := reserveItems * (queueItemCost + frameHeader + 4)
def defaultPendingItems : Int := 256 * 1024
def maxPendingPerSession : Int := 32 * mib

def streamsPerSessionEstimate : Int := 32
def shardRssEstimate : Int := 12 * mib
def relayBaseRssEstimate : Int := 64 * mib
def reconnectGrace : String := "60s"

/-- `reserve_ok` -/
def reserveOk (sessions pendingBytes pendingItems : Int) : Bool :=
  reserveCost ≤ pendingBytes / sessions && reserveItems ≤ pendingItems / sessions

example :
    reserveOk 655 (512 * mib) (256 * 1024) = true ∧ reserveOk 656 (512 * mib) (256 * 1024) =
      false := by decide

/-- `users_target * devices_per_user * 1.1 / SHARD_SIZE`, rounded up, times `SHARD_SIZE` -/
def poolSlots (usersTarget : Int) : Option Int := do
  let users ← Double.ofInt usersTarget
  let shards ← (((users.mul (Double.round (12 / 10))).mul (Double.round (11 / 10))).div
      (.finite shardSize)).ceil
  pure (shards * shardSize)

inductive Exn where
  | value (message : String)
  | assertion (message : String)
  | overflow
deriving DecidableEq, Repr

/-- The dict of `compute`. -/
structure Plan where
  usersTarget : Int
  cpus : Int
  memBytes : Int
  poolSlots : Int
  shards : Int
  sizing : Sizing
  mtproxyMaxConnections : Int
  warnings : List String
deriving DecidableEq, Repr

/-- `pending` -/
def pendingBudget (memBytes : Int) : Int :=
  max (min (512 * mib) (memBytes / 4)) maxPendingPerSession

/-- `sessions`: half of the byte budget at least is kept for data. -/
def sessionsFor (slots pending : Int) : Int :=
  if slots * reserveCost * 2 > pending then max 1 (pending / (reserveCost * 2)) else slots

def streamsFor (sessions : Int) : Int :=
  max (min (sessions * streamsPerSessionEstimate) 65536) maxStreamsPerSession

/-- `limits` -/
def relayLimitsFor (slots pending sessions rate burst : Int) : Dict :=
  let items := sessions * reserveItems + defaultPendingItems
  let streams := streamsFor sessions
  let newSessionsBurst := max 128 sessions
  let newBootstrapsBurst := max 256 (2 * sessions)
  let newStreamsBurst := max (max 512 (4 * sessions)) burst
  [("max_sessions_global", sessions),
   ("max_streams_global", streams),
   ("max_backend_dials_in_flight", min 256 streams),
   ("max_pending_global", pending),
   ("max_pending_items_global", items),
   ("max_profiles", slots + shardSize),
   ("new_sessions_burst", newSessionsBurst),
   ("new_sessions_per_minute", 5 * newSessionsBurst),
   ("new_bootstraps_burst", newBootstrapsBurst),
   ("new_bootstraps_per_minute", 5 * newBootstrapsBurst),
   ("max_bootstraps_global", max 512 (2 * sessions)),
   ("new_streams_burst", newStreamsBurst),
   ("new_streams_per_minute", max (5 * newStreamsBurst) rate)]

def profileLimitsFor (rate burst : Int) : Dict :=
  [("max_sessions", 1), ("new_streams_per_minute", rate), ("new_streams_burst", burst)]

def sessionsWarning (slots sessions pending : Int) : List String :=
  if slots * reserveCost * 2 > pending then
    ["Памяти мало для " ++ toString slots ++ " устройств: relay рассчитан на " ++
      toString sessions ++ " одновременных сессий."]
  else []

/-- The branch of `estimated > mem_bytes * 0.7`. -/
def memoryWarning (usersTarget memBytes estimated : Int) : Option (List String) := do
  let share := (← Double.ofInt memBytes).mul (Double.round (7 / 10))
  if share.ltInt estimated then
    let suggested ← (((← Double.ofInt usersTarget).mul share).div (← Double.ofInt estimated)).toInt
    pure ["Оценка памяти " ++ toString (estimated / mib) ++ " МиБ из " ++
      toString (memBytes / mib) ++
      " МиБ: рекомендуется не больше ~" ++ toString (max 16 suggested) ++ " пользователей."]
  else pure []

def cpuWarning (usersTarget cpus : Int) : List String :=
  if cpus < 2 ∧ usersTarget > 100 then ["Для более чем 100 пользователей рекомендуется от 2 vCPU."]
    else []

/-- `compute` with the number of slots that `pool_slots` answers. -/
def planFor (slots usersTarget cpus memBytes rate burst : Int) : Except Exn Plan :=
  let shards := slots / shardSize
  let pending := pendingBudget memBytes
  let sessions := sessionsFor slots pending
  let limits := relayLimitsFor slots pending sessions rate burst
  if ¬ reserveOk sessions pending (limits.value "max_pending_items_global") then
    .error (.assertion "sizing violates relay budget")
  else
    match memoryWarning usersTarget memBytes
      (relayBaseRssEstimate + pending + shards * shardRssEstimate) with
    | none => .error .overflow
    | some warning => .ok {
        usersTarget := usersTarget
        cpus := cpus
        memBytes := memBytes
        poolSlots := slots
        shards := shards
        sizing := ⟨limits, [("reconnect_grace", reconnectGrace)], profileLimitsFor rate burst⟩
        mtproxyMaxConnections := 4096
        warnings := sessionsWarning slots sessions pending ++ warning ++
          cpuWarning usersTarget cpus }

def computeWith (poolSlots : Int → Option Int) (usersTarget cpus memBytes rate burst : Int) :
    Except Exn Plan :=
  if usersTarget ≤ 0 then .error (.value "Ожидаемое число пользователей должно быть положительным.")
  else
    match poolSlots usersTarget with
    | none => .error .overflow
    | some slots => planFor slots usersTarget cpus memBytes rate burst

/-- `compute` -/
def compute : (usersTarget cpus memBytes rate burst : Int) → Except Exn Plan :=
  computeWith poolSlots

/-! ## The relay's rules -/

/-- The limit of the relay that a limit of a profile is a share of. -/
def globalName (key : String) : String :=
  if key = "max_sessions" then "max_sessions_global" else key

/-- What the relay asks of its limits and those of its profiles, for a pool of `slots` slots. -/
structure Budget (slots : Int) (limits profile : Dict) : Prop where
  reserve : reserveOk (limits.value "max_sessions_global") (limits.value "max_pending_global")
    (limits.value "max_pending_items_global") = true
  half : 2 * limits.value "max_sessions_global" * reserveCost ≤ limits.value "max_pending_global"
  pending : 32 * mib ≤ limits.value "max_pending_global"
  session : 1 ≤ limits.value "max_sessions_global"
  sessions : limits.value "max_sessions_global" ≤ slots
  streams : 128 ≤ limits.value "max_streams_global"
  dials : limits.value "max_backend_dials_in_flight" ≤ limits.value "max_streams_global"
  within : ∀ kv ∈ profile, kv.2 ≤ limits.value (globalName kv.1)
  positive : ∀ kv ∈ limits ++ profile, 0 < kv.2

/-! ## Plans keep the rules -/

section
variable {slots pending : Int}

theorem mib_le_pendingBudget (memBytes : Int) : 32 * mib ≤ pendingBudget memBytes :=
  le_max_right _ _

/-- The session count is between one and the pool, and half of the budget covers it. -/
theorem sessionsFor_spec (hslots : 1 ≤ slots) (hpending : 32 * mib ≤ pending) :
    1 ≤ sessionsFor slots pending ∧ sessionsFor slots pending ≤ slots ∧
      2 * sessionsFor slots pending * reserveCost ≤ pending := by
  have hcost : reserveCost = 107200 := by decide
  have hmib : mib = 1048576 := by decide
  rw [hcost]
  unfold sessionsFor
  rw [hcost]
  split
  · omega
  · omega

theorem streamsFor_spec (sessions : Int) :
    128 ≤ streamsFor sessions ∧ min 256 (streamsFor sessions) ≤ streamsFor sessions :=
  ⟨le_max_right _ _, min_le_right _ _⟩

/-- What fits twice fits: the relay's own inequality. -/
theorem reserveOk_of_half {sessions : Int} (hs : 1 ≤ sessions)
    (hhalf : 2 * sessions * reserveCost ≤ pending) :
    reserveOk sessions pending (sessions * reserveItems + defaultPendingItems) = true := by
  have hcost : 0 ≤ reserveCost * sessions := by have : 0 ≤ reserveCost := by decide
                                                positivity
  have hitems : 0 ≤ defaultPendingItems := by decide
  simp only [reserveOk, Bool.and_eq_true, decide_eq_true_eq]
  constructor
  · rw [Int.le_ediv_iff_mul_le (by omega)]
    linarith
  · rw [Int.le_ediv_iff_mul_le (by omega)]
    linarith

theorem budget_relayLimitsFor {rate burst : Int} (hslots : 1 ≤ slots)
    (hpending : 32 * mib ≤ pending) (hrate : 0 < rate) (hburst : 0 < burst) :
    Budget slots (relayLimitsFor slots pending (sessionsFor slots pending) rate burst)
      (profileLimitsFor rate burst) := by
  obtain ⟨hone, hle, hhalf⟩ := sessionsFor_spec hslots hpending
  obtain ⟨hstreams, hdials⟩ := streamsFor_spec (sessionsFor slots pending)
  have hmib : mib = 1048576 := by decide
  refine ⟨reserveOk_of_half hone hhalf, hhalf, hpending, hone, hle, hstreams, hdials, ?_, ?_⟩
  · simp only [profileLimitsFor, List.forall_mem_cons]
    refine ⟨hone, le_max_right _ _, le_max_right _ _, by simp⟩
  · have hshard : (0 : Int) < shardSize := by decide
    simp only [relayLimitsFor, profileLimitsFor, List.cons_append, List.nil_append,
      List.forall_mem_cons]
    have hitems : reserveItems = 400 := by decide
    have hdefault : defaultPendingItems = 262144 := by decide
    rw [hitems, hdefault]
    refine ⟨?_, ?_, ?_, ?_, ?_, ?_, ?_, ?_, ?_, ?_, ?_, ?_, ?_, ?_, ?_, ?_, by simp⟩ <;> omega

end

/-! ## The rendered configuration -/

theorem Budget.set {limits profile : Dict} {slots value : Int} (h : Budget slots limits profile)
    (hpos : 0 < value) (hkey : ∀ kv ∈ profile, globalName kv.1 ≠ "max_profiles") :
    Budget slots (limits.set "max_profiles" value) profile := by
  have hval : ∀ key, key ≠ "max_profiles" → (limits.set "max_profiles" value).value key =
      limits.value key :=
    fun key hne => Dict.value_set_ne hne limits
  refine ⟨?_, ?_, ?_, ?_, ?_, ?_, ?_, ?_, ?_⟩
  · rw [hval _ (by decide), hval _ (by decide), hval _ (by decide)]
    exact h.reserve
  · rw [hval _ (by decide), hval _ (by decide)]
    exact h.half
  · rw [hval _ (by decide)]
    exact h.pending
  · rw [hval _ (by decide)]
    exact h.session
  · rw [hval _ (by decide)]
    exact h.sessions
  · rw [hval _ (by decide)]
    exact h.streams
  · rw [hval _ (by decide), hval _ (by decide)]
    exact h.dials
  · intro kv hkv
    rw [hval _ (hkey kv hkv)]
    exact h.within kv hkv
  · intro kv hkv
    obtain hkv | hkv := List.mem_append.1 hkv
    · obtain hkv | rfl := Dict.mem_set hkv
      · exact h.positive kv (List.mem_append_left _ hkv)
      · exact hpos
    · exact h.positive kv (List.mem_append_right _ hkv)

/-- The configuration of any number of profiles keeps the rules that the plan keeps. -/
theorem Budget.render {sizing : Sizing} {slots : Int}
    (h : Budget slots sizing.relayLimits sizing.profileLimits)
    (hpos : 0 < sizing.relayLimits.value "max_profiles")
    (hkey : ∀ kv ∈ sizing.profileLimits, globalName kv.1 ≠ "max_profiles") (cfg : Config)
    (profileCount : Nat) :
    Budget slots (renderRelayConfig cfg sizing profileCount).limits sizing.profileLimits ∧
      (profileCount : Int) ≤ (renderRelayConfig cfg sizing profileCount).limits.value
        "max_profiles" := by
  refine ⟨h.set (lt_of_lt_of_le hpos (le_max_left _ _)) hkey, ?_⟩
  rw [renderRelayConfig, Dict.value_set_self]
  exact le_max_right _ _

/-! ## Every plan keeps the rules -/

section
variable {poolSlots : Int → Option Int} {slots usersTarget cpus memBytes rate burst : Int}

/-- What there is to `compute` once the slots are known: the reserve check never fails. -/
theorem planFor_eq (hslots : 1 ≤ slots) : planFor slots usersTarget cpus memBytes rate burst =
    match memoryWarning usersTarget memBytes
      (relayBaseRssEstimate + pendingBudget memBytes + slots / shardSize * shardRssEstimate) with
    | none => .error .overflow
    | some warning => .ok {
        usersTarget := usersTarget
        cpus := cpus
        memBytes := memBytes
        poolSlots := slots
        shards := slots / shardSize
        sizing := ⟨relayLimitsFor slots (pendingBudget memBytes)
          (sessionsFor slots (pendingBudget memBytes)) rate burst,
          [("reconnect_grace", reconnectGrace)], profileLimitsFor rate burst⟩
        mtproxyMaxConnections := 4096
        warnings := sessionsWarning slots (sessionsFor slots (pendingBudget memBytes))
          (pendingBudget memBytes) ++ warning ++ cpuWarning usersTarget cpus } := by
  obtain ⟨hone, -, hhalf⟩ := sessionsFor_spec hslots (mib_le_pendingBudget memBytes)
  have hreserve := reserveOk_of_half hone hhalf
  unfold planFor
  exact if_neg (not_not.2 hreserve)

theorem sized_round_ratio {a : ℚ} (ha : 1 / 2 ≤ a) (ha' : a ≤ 2) :
    Double.Sized 2 (Double.round a) :=
  Double.sized_round (by linarith) (by linarith) (by omega)

/-- The float arithmetic of the warning stays in range for numbers up to `2 ^ 80`. -/
theorem memoryWarning_isSome {estimated : Int} (hu : 1 ≤ usersTarget) (hu' : usersTarget ≤ 2 ^ 80)
    (hm : 0 ≤ memBytes) (hm' : memBytes ≤ 2 ^ 80) (he : 1 ≤ estimated) (he' : estimated ≤ 2 ^ 80) :
    ∃ warning, memoryWarning usersTarget memBytes estimated = some warning := by
  obtain ⟨users, husers, hsized⟩ := Double.sized_ofInt hu hu' (by omega)
  obtain ⟨est, hest, hesized⟩ := Double.sized_ofInt he he' (by omega)
  have hratio : Double.Sized 2 (Double.round (7 / 10)) :=
    sized_round_ratio (by norm_num) (by norm_num)
  -- Either there is no memory at all and everything is zero, or nothing is.
  have hshare : ∃ d, Double.ofInt memBytes = some d ∧
      ∃ n, ((users.mul (d.mul (Double.round (7 / 10)))).div est).toInt = some n := by
    obtain rfl | hpos := hm.eq_or_lt
    · refine ⟨.finite 0, Double.ofInt_zero, 0, ?_⟩
      rw [hratio.zero_mul, hsized.mul_zero, hesized.zero_div]
      simp [Double.toInt]
    · obtain ⟨mem, hmem, hmsized⟩ := Double.sized_ofInt (Int.add_one_le_iff.2 hpos) hm' (by omega)
      refine ⟨mem, hmem, ?_⟩
      exact ((hsized.mul (hmsized.mul hratio (by omega)) (by omega)).div hesized (by omega)).toInt
  obtain ⟨mem, hmem, n, hn⟩ := hshare
  simp only [memoryWarning, hmem, husers, hest, hn, Option.bind_eq_bind, Option.bind_some]
  split <;> exact ⟨_, rfl⟩

/-- `pool_slots` answers a positive multiple of the shard size. -/
theorem poolSlots_spec (hu : 1 ≤ usersTarget) (hu' : usersTarget ≤ 2 ^ 40) :
    ∃ shards : Int, Sizing.poolSlots usersTarget = some (shards * shardSize) ∧ 1 ≤ shards ∧
      shards ≤ 2 ^ 52 := by
  obtain ⟨users, husers, hsized⟩ := Double.sized_ofInt hu hu' (by omega)
  have hdevices : Double.Sized 2 (Double.round (12 / 10)) :=
    sized_round_ratio (by norm_num) (by norm_num)
  have hmargin : Double.Sized 2 (Double.round (11 / 10)) :=
    sized_round_ratio (by norm_num) (by norm_num)
  have hsixteen : Double.Sized 4 (.finite shardSize) :=
    ⟨_, rfl, by norm_num [shardSize], by norm_num [shardSize]⟩
  have hall := (((hsized.mul hdevices (by omega)).mul hmargin (by omega)).div hsixteen (by omega))
  obtain ⟨shards, hshards, hone, hle⟩ := hall.ceil
  refine ⟨shards, ?_, hone, hle⟩
  simp only [Sizing.poolSlots, husers, Option.bind_eq_bind, Option.bind_some, hshards]
  rfl

/-- `estimated` for a pool that is not astronomic -/
theorem estimated_range (hslots : 1 ≤ slots) (hslots' : slots ≤ 2 ^ 56) :
    1 ≤ relayBaseRssEstimate + pendingBudget memBytes + slots / shardSize * shardRssEstimate ∧
      relayBaseRssEstimate + pendingBudget memBytes + slots / shardSize *
        shardRssEstimate ≤ 2 ^ 80 := by
  have hbase : relayBaseRssEstimate = 67108864 := by decide
  have hrss : shardRssEstimate = 12582912 := by decide
  have hshard : (shardSize : Int) = 16 := rfl
  have hmib : mib = 1048576 := by decide
  have hmax : maxPendingPerSession = 33554432 := by decide
  unfold pendingBudget
  rw [hbase, hrss, hshard, hmib, hmax]
  omega

theorem planFor_ne_assertion (hslots : 1 ≤ slots) (message : String) :
    planFor slots usersTarget cpus memBytes rate burst ≠ .error (.assertion message) := by
  rw [planFor_eq hslots]
  split <;> simp

theorem planFor_budget {plan : Plan} (hslots : 1 ≤ slots) (hrate : 0 < rate) (hburst : 0 < burst)
    (h : planFor slots usersTarget cpus memBytes rate burst = .ok plan) :
    plan.poolSlots = slots ∧ Budget plan.poolSlots plan.sizing.relayLimits
      plan.sizing.profileLimits ∧
      ∀ cfg profileCount,
        Budget plan.poolSlots (renderRelayConfig cfg plan.sizing profileCount).limits
          plan.sizing.profileLimits ∧
        (profileCount : Int) ≤ (renderRelayConfig cfg plan.sizing profileCount).limits.value
          "max_profiles" := by
  rw [planFor_eq hslots] at h
  split at h
  · simp at h
  · obtain rfl := Except.ok.inj h
    have hbudget := budget_relayLimitsFor hslots (mib_le_pendingBudget memBytes) hrate hburst
    refine ⟨rfl, hbudget, hbudget.render ?_ ?_⟩
    · change 0 < slots + shardSize
      have : (shardSize : Int) = 16 := rfl
      omega
    · simp [profileLimitsFor, globalName]

theorem planFor_returns (hslots : 1 ≤ slots) (hslots' : slots ≤ 2 ^ 56) (hu : 1 ≤ usersTarget)
    (hu' : usersTarget ≤ 2 ^ 80) (hm : 0 ≤ memBytes) (hm' : memBytes ≤ 2 ^ 80) :
    ∃ plan, planFor slots usersTarget cpus memBytes rate burst = .ok plan := by
  obtain ⟨he, he'⟩ := estimated_range hslots hslots'
  obtain ⟨warning, hw⟩ := memoryWarning_isSome hu hu' hm hm' he he'
  rw [planFor_eq hslots, hw]
  exact ⟨_, rfl⟩

/-- `compute` returns a plan on every host up to `2 ^ 80` bytes. -/
theorem compute_returns (hu : 1 ≤ usersTarget) (hu' : usersTarget ≤ 2 ^ 40) (hm : 0 ≤ memBytes)
    (hm' : memBytes ≤ 2 ^ 80) :
    ∃ plan, compute usersTarget cpus memBytes rate burst = .ok plan := by
  obtain ⟨shards, hpool, hone, hle⟩ := poolSlots_spec hu hu'
  have hshard : (shardSize : Int) = 16 := rfl
  rw [hshard] at hpool
  have hmany : 1 ≤ shards * 16 := by omega
  obtain ⟨plan, hp⟩ := planFor_returns hmany (by omega) hu (by omega) hm hm'
  refine ⟨plan, ?_⟩
  unfold compute computeWith
  rw [if_neg (by omega), hpool]
  exact hp

/-- Every plan keeps the relay's rules, and so does the configuration of every number of profiles.
`compute` can only fail on numbers that are too large for a float. -/
theorem computeWith_budget {k : Int} (hpool : poolSlots usersTarget = some slots)
    (h16 : slots = 16 * k) (hk : 0 < k) (hu : 1 ≤ usersTarget) (hm : 0 ≤ memBytes)
    (hrate : 0 < rate) (hburst : 0 < burst) :
    (∀ message, computeWith poolSlots usersTarget cpus memBytes rate burst ≠
      .error (.assertion message)) ∧
      (∀ plan, computeWith poolSlots usersTarget cpus memBytes rate burst = .ok plan →
        plan.poolSlots = slots ∧ Budget plan.poolSlots plan.sizing.relayLimits
          plan.sizing.profileLimits ∧
        ∀ cfg profileCount,
          Budget plan.poolSlots (renderRelayConfig cfg plan.sizing profileCount).limits
            plan.sizing.profileLimits ∧
          (profileCount : Int) ≤ (renderRelayConfig cfg plan.sizing profileCount).limits.value
            "max_profiles") ∧
      (usersTarget ≤ 2 ^ 80 → memBytes ≤ 2 ^ 80 → slots ≤ 2 ^ 56 →
        ∃ plan, computeWith poolSlots usersTarget cpus memBytes rate burst = .ok plan) := by
  have hslots : 1 ≤ slots := by omega
  have hrun : computeWith poolSlots usersTarget cpus memBytes rate burst =
      planFor slots usersTarget cpus memBytes rate burst := by
    unfold computeWith
    rw [if_neg (by omega), hpool]
  rw [hrun]
  refine ⟨planFor_ne_assertion hslots, fun plan h => planFor_budget hslots hrate hburst h,
    fun hu' hm' hs' => ?_⟩
  exact planFor_returns hslots hs' hu hu' hm hm'

/-- A host with a single user, no memory at all, and one shard. -/
theorem computeWith_budget_smallest :
    (∀ message, computeWith (fun _ => some 16) 1 1 0 300 64 ≠ .error (.assertion message)) ∧
      ∃ plan, computeWith (fun _ => some 16) 1 1 0 300 64 = .ok plan ∧
        Budget 16 plan.sizing.relayLimits plan.sizing.profileLimits := by
  obtain ⟨hassert, hplan, hreturns⟩ := @computeWith_budget (fun _ => some 16) 16 1 1 0 300 64 1 rfl
      rfl (by omega)
    (by omega) (by omega) (by omega) (by omega)
  obtain ⟨plan, hp⟩ := hreturns (by omega) (by omega) (by omega)
  obtain ⟨hslots, hbudget, -⟩ := hplan plan hp
  rw [hslots] at hbudget
  exact ⟨hassert, plan, hp, hbudget⟩

end

end Sizing
end WebProxyPanel
