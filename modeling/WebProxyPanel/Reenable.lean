import WebProxyPanel.People
/-!
# Setters and the way back

`set_expiry`, `extend` and `set_traffic_limit` with `enable_now`, called one after the other on a
disabled user. The user has one stored reason while two causes can hold; `_maybe_reenable` looks at
both causes, but only in the setters for the stored reason.

* `Values` — what the causes depend on; `Setting.write` is what a call does to it.
* `Called` — what one call does to the row.
* `Lets` — some call for the stored reason finds no cause left. `settings_flag`: exactly then the
  user is enabled after the calls.
-/

namespace WebProxyPanel
open Table Effects Users

/-! ## Calls -/

/-- A setter, `enable_now` left at its default. -/
inductive Setting where
  | expiry (expiresAt : Option Int)
  | extend (days : Int)
  | limit (limitBytes : Option Int) (reset : String)
deriving DecidableEq, Repr

namespace Setting

def op (userId : Int) : Setting → Op
  | expiry expiresAt => .setExpiry userId expiresAt true
  | extend days => .extend userId days true
  | limit limitBytes reset => .setTrafficLimit userId limitBytes reset true

/-- The reason that it passes to `_maybe_reenable`. -/
def reason : Setting → Reason
  | expiry _ | extend _ => .expired
  | limit _ _ => .trafficLimit

end Setting

/-- What the two causes depend on. -/
structure Values where
  expiresAt : Option Int
  limit : Option Int
  used : Int
deriving DecidableEq, Repr

namespace Values

def expired (t : Int) (v : Values) : Bool := v.expiresAt.any fun e => e ≤ t

def reached (v : Values) : Bool := v.limit.any fun b => b ≤ v.used

/-- A cause to keep the user out. -/
def cause (t : Int) (v : Values) : Bool := v.expired t || v.reached

end Values

/-- What a call at time `t` writes. -/
def Setting.write (t : Int) (v : Values) : Setting → Values
  | .expiry expiresAt => { v with expiresAt := expiresAt }
  | .extend days => { v with expiresAt := some (max t (v.expiresAt.getD 0) + days * day) }
  | .limit limitBytes _ => { v with limit := limitBytes }

/-- Calls with the times at which they are made. -/
abbrev Calls := List (Int × Setting)

def writeAll (cs : Calls) (v : Values) : Values := cs.foldl (fun v c => c.2.write c.1 v) v

/-- Some call for the reason `r` leaves no cause at its own time. -/
def Lets (r : Reason) : Calls → Values → Prop
  | [], _ => False
  | (t, s) :: cs, v => (s.reason = r ∧ (s.write t v).cause t = false) ∨ Lets r cs (s.write t v)

theorem writeAll_append (cs ds : Calls) (v : Values) :
    writeAll (cs ++ ds) v = writeAll ds (writeAll cs v) := List.foldl_append

theorem lets_append {r : Reason} {ds : Calls} : ∀ {cs : Calls} {v : Values},
    Lets r (cs ++ ds) v ↔ Lets r cs v ∨ Lets r ds (writeAll cs v)
  | [], v => by simp [Lets, writeAll]
  | (t, s) :: cs, v => by
    have ih := @lets_append r ds cs (s.write t v)
    simp only [List.cons_append, Lets, ih, or_assoc]
    rfl

/-! ## Rows -/

def User.values (u : User) : Values := ⟨u.expiresAt, u.trafficLimitBytes, u.periodUp + u.periodDown⟩

theorem expired_values (u : User) (t : Int) : Users.expired u t = u.values.expired t := by
  unfold Users.expired Values.expired User.values
  cases u.expiresAt <;> rfl

theorem limitReached_values (u : User) : limitReached u = u.values.reached := by
  unfold limitReached Values.reached User.values
  cases u.trafficLimitBytes <;> rfl

theorem cause_values {u : User} {t : Int} :
    u.values.cause t = false ↔ Users.expired u t = false ∧ limitReached u = false := by
  rw [expired_values, limitReached_values, Values.cause, Bool.or_eq_false_iff]

/-- What a call does to the row of its user. -/
structure Called (t : Int) (s : Setting) (u u' : User) : Prop where
  values : u'.values = s.write t u.values
  flag : (u.enabled = 0 ∧ u.disabledReason = some s.reason ∧ u'.values.cause t = false ∧
    u'.enabled = 1) ∨ (u'.enabled = u.enabled ∧ u'.disabledReason = u.disabledReason ∧
      (u.enabled ≠ 0 ∨ u.disabledReason ≠ some s.reason ∨ u'.values.cause t = true))

theorem called_of_setter {db db' : DB} (hc : db.Consistent) {t : Int} {f : User → User}
    {s : Setting} {userId : Int} {calls : List FwCall}
    (h : Setter (· = t) true s.reason f userId db db' calls)
    (hf : ∀ u, (f u).id = u.id ∧ (f u).enabled = u.enabled ∧
      (f u).disabledReason = u.disabledReason)
    {u : User} (hu : u ∈ db.users) (hid : u.id = userId)
    (hvalues : (f u).values = s.write t u.values) :
    ∃ u' ∈ db'.users, u'.id = userId ∧ Called t s u u' := by
  cases h with
  | @reenabled u₀ hu₀ hid₀ _ hre husers _ =>
    obtain rfl : u₀ = u := eq_of_key hc.userId hu₀ hu (hid₀.trans hid.symm)
    obtain ⟨h0, hreason, _, rfl, hcause⟩ := hre
    refine ⟨setEnabled (f u₀), ?_, (hf u₀).1.trans hid, hvalues,
      .inl ⟨(hf u₀).2.1 ▸ h0, (hf u₀).2.2 ▸ hreason, ?_, rfl⟩⟩
    · rw [husers]
      exact mem_update.2 ⟨u₀, hu, by simp [hid]⟩
    · exact cause_values.2 hcause
  | @changed u₀ hu₀ hid₀ hkeep husers _ =>
    obtain rfl : u₀ = u := eq_of_key hc.userId hu₀ hu (hid₀.trans hid.symm)
    refine ⟨f u₀, ?_, (hf u₀).1.trans hid, hvalues, .inr ⟨(hf u₀).2.1, (hf u₀).2.2, ?_⟩⟩
    · rw [husers]
      exact mem_update.2 ⟨u₀, hu, by simp [hid]⟩
    rcases hkeep rfl with h1 | hreason | ⟨_, rfl, hcause⟩
    · exact .inl ((hf u₀).2.1 ▸ h1)
    · exact .inr (.inl ((hf u₀).2.2 ▸ hreason))
    · right; right
      by_contra hne
      obtain ⟨hexp, hlim⟩ := cause_values.1 (eq_false_of_ne_true hne)
      rw [hexp, hlim] at hcause
      simp at hcause

/-! ## Runs -/

/-- The calls on one user, one after the other, each of which returns. -/
inductive Settings (userId : Int) : Calls → World → World → Prop
  | nil (w : World) : Settings userId [] w w
  | cons {t : Int} {s : Setting} {cs : Calls} {w w₁ w₂ : World} {n : Nat} {l : Own} :
      sem.Runs (fun c {_} a s => sharp t c a s = true) (s.op userId).program (w, Own.idle n)
        (.ok ()) (w₁, l) →
      Settings userId cs w₁ w₂ → Settings userId ((t, s) :: cs) w w₂

theorem Settings.resting {userId : Int} {cs : Calls} {w w' : World} (hw : Resting w)
    (hs : Settings userId cs w w') : Resting w' := by
  induction hs with
  | nil => exact hw
  | cons hr _ ih => exact ih (resting_runs hw hr).1

section Runs
variable {w w' : World} {u : User}

theorem called_of_runs (hw : Resting w) (hu : u ∈ w.db.users) {t : Int} {s : Setting} {n : Nat}
    {l : Own}
    (hr : sem.Runs (fun c {_} a s => sharp t c a s = true) (s.op u.id).program (w, Own.idle n)
      (.ok ()) (w', l)) :
    ∃ u' ∈ w'.db.users, u'.id = u.id ∧ Called t s u u' := by
  have hc := hw.world.1.consistent
  have huser : (s.op u.id).isUser = true := by cases s <;> rfl
  obtain ⟨ids, heffect, -⟩ := runs_effect (clocked_sharp t) huser hr
  generalize firewallCalls l.trace = calls at heffect
  cases s with
  | expiry expiresAt =>
    cases heffect with
    | setExpiry hset =>
      exact called_of_setter (s := .expiry expiresAt) hc hset (fun _ => ⟨rfl, rfl, rfl⟩) hu rfl rfl
  | extend days =>
    cases heffect with
    | @extend _ _ _ t' u₀ _ ht hdays hu₀ hid₀ hset =>
      obtain rfl : u₀ = u := eq_of_key hc.userId hu₀ hu hid₀
      subst ht
      exact called_of_setter (s := .extend days) hc hset (fun _ => ⟨rfl, rfl, rfl⟩) hu rfl rfl
  | limit limitBytes reset =>
    cases heffect with
    | setTrafficLimit _ hset =>
      exact called_of_setter (s := .limit limitBytes reset) hc hset
        (fun _ => ⟨rfl, rfl, rfl⟩) hu rfl rfl

/-- A user who is enabled stays enabled. -/
theorem settings_enabled {cs : Calls} (hw : Resting w) (hu : u ∈ w.db.users) (h1 : u.enabled ≠ 0)
    (hs : Settings u.id cs w w') :
    ∃ u' ∈ w'.db.users, u'.id = u.id ∧ u'.values = writeAll cs u.values ∧ u'.enabled ≠ 0 := by
  generalize hid : u.id = userId at hs
  induction hs generalizing u with
  | nil w => exact ⟨u, hu, hid, rfl, h1⟩
  | @cons t s cs w w₁ w₂ n l hr _ ih =>
    subst hid
    obtain ⟨u₁, hu₁, hid₁, hcalled⟩ := called_of_runs hw hu hr
    have h1' : u₁.enabled ≠ 0 := by
      rcases hcalled.flag with ⟨h0, -⟩ | ⟨hen, -⟩
      · exact absurd h0 h1
      · rwa [hen]
    obtain ⟨u', hu', hid', hvalues, hend⟩ := ih (resting_runs hw hr).1 hu₁ h1' hid₁
    refine ⟨u', hu', hid', ?_, hend⟩
    rw [hvalues, hcalled.values]
    rfl

/-- A user who is disabled is enabled after the calls exactly if one of them lets them in. -/
theorem settings_flag {cs : Calls} {r : Reason} (hw : Resting w) (hu : u ∈ w.db.users)
    (h0 : u.enabled = 0) (hr : u.disabledReason = some r) (hs : Settings u.id cs w w') :
    ∃ u' ∈ w'.db.users, u'.id = u.id ∧ u'.values = writeAll cs u.values ∧
      (u'.enabled ≠ 0 ↔ Lets r cs u.values) := by
  generalize hid : u.id = userId at hs
  induction hs generalizing u with
  | nil w => exact ⟨u, hu, hid, rfl, by simp [h0, Lets]⟩
  | @cons t s cs w w₁ w₂ n l hrun hs ih =>
    subst hid
    obtain ⟨u₁, hu₁, hid₁, hcalled⟩ := called_of_runs hw hu hrun
    have hw₁ := (resting_runs hw hrun).1
    have hwrite : writeAll ((t, s) :: cs) u.values = writeAll cs u₁.values := by
      rw [hcalled.values]
      rfl
    rw [hwrite]
    simp only [Lets]
    rw [← hcalled.values]
    rcases hcalled.flag with ⟨-, hreason, hcause, h1⟩ | ⟨hen, hreason, hno⟩
    · -- this call lets the user in
      obtain ⟨u', hu', hid', hvalues, hend⟩ :=
        settings_enabled hw₁ hu₁ (by simp [h1]) (hid₁.symm ▸ hs)
      rw [hr] at hreason
      refine ⟨u', hu', hid'.trans hid₁, hvalues, iff_of_true hend (.inl ⟨?_, hcause⟩)⟩
      exact (Option.some.inj hreason).symm
    · obtain ⟨u', hu', hid', hvalues, hend⟩ := ih hw₁ hu₁ (hen.trans h0) (hreason.trans hr) hid₁
      refine ⟨u', hu', hid', hvalues, hend.trans ⟨.inr, fun h => h.resolve_left ?_⟩⟩
      rintro ⟨hsr, hcause⟩
      rw [hr, hsr] at hno
      rcases hno with hno | hno | hno
      · exact hno h0
      · exact hno rfl
      · rw [hcause] at hno
        simp at hno

end Runs

/-! ## The order of two calls -/

/-- Between the values `v` and the values after a `set_expiry` to `e` and a `set_traffic_limit` to
`b`, the cause that the two orders test differently is the same: the other one when the reason's own
cause is gone. -/
def SameEitherWay (r : Reason) (t : Int) (e b : Option Int) (v : Values) : Prop :=
  match r with
  | .expired =>
    Values.expired t { v with expiresAt := e } = true ∨
      (v.reached = Values.reached { v with limit := b })
  | .trafficLimit =>
    Values.reached { v with limit := b } = true ∨
      (v.expired t = Values.expired t { v with expiresAt := e })
  | .manual => True

/-- Which of the two orders lets the user in. -/
theorem lets_swap {r : Reason} {t : Int} {e b : Option Int} {reset : String} {v : Values} :
    (Lets r [(t, .expiry e), (t, .limit b reset)] v ↔
      Lets r [(t, .limit b reset), (t, .expiry e)] v) ↔
      SameEitherWay r t e b v := by
  have hfirst : Lets r [(t, .expiry e), (t, .limit b reset)] v ↔
      (.expired = r ∧ (Values.expired t { v with expiresAt := e } || v.reached) = false) ∨
      (.trafficLimit = r ∧ (Values.expired t { v with expiresAt := e } ||
        Values.reached { v with limit := b }) = false) ∨
      False := Iff.rfl
  have hsecond : Lets r [(t, .limit b reset), (t, .expiry e)] v ↔
      (.trafficLimit = r ∧ (v.expired t || Values.reached { v with limit := b }) = false) ∨
      (.expired = r ∧ (Values.expired t { v with expiresAt := e } ||
        Values.reached { v with limit := b }) = false) ∨
      False := Iff.rfl
  rw [hfirst, hsecond]
  unfold SameEitherWay
  generalize Values.reached { v with limit := b } = newReached
  generalize Values.expired t { v with expiresAt := e } = newExpired
  cases r with
  | manual => simp
  | expired => cases newExpired <;> cases newReached <;> cases v.reached <;> simp
  | trafficLimit => cases newReached <;> cases newExpired <;> cases v.expired t <;> simp

/-- For a disabled user and calls of the setters on them: if no cause is left at the last call, the
user is enabled after it, exactly if some call for the stored reason finds no cause left; and a
`set_expiry` and a `set_traffic_limit` next to each other can be swapped, exactly if another call
lets the user in or the cause that only one order tests is the same. -/
theorem setters_restore_iff (w : World) (hw : Resting w) (u : User) (hu : u ∈ w.db.users)
    (r : Reason) (h0 : u.enabled = 0) (hr : u.disabledReason = some r) :
    (∀ (cs : Calls) (t : Int) (s : Setting) (w' : World), Settings u.id (cs ++ [(t, s)]) w w' →
      ∀ u' ∈ w'.db.users, u'.id = u.id →
        ((Users.expired u' t = false → limitReached u' = false → u'.enabled = 1) ↔
          Lets r (cs ++ [(t, s)]) u.values ∨ (writeAll (cs ++ [(t, s)]) u.values).cause t = true)) ∧
    ∀ (cs ds : Calls) (t : Int) (e b : Option Int) (reset : String) (w₁ w₂ : World),
      Settings u.id (cs ++ (t, .expiry e) :: (t, .limit b reset) :: ds) w w₁ →
      Settings u.id (cs ++ (t, .limit b reset) :: (t, .expiry e) :: ds) w w₂ →
      ∀ u₁ ∈ w₁.db.users, ∀ u₂ ∈ w₂.db.users, u₁.id = u.id → u₂.id = u.id →
        (u₁.enabled = u₂.enabled ↔ Lets r cs u.values ∨
          SameEitherWay r t e b (writeAll cs u.values) ∨
          Lets r ds (writeAll (cs ++ [(t, .expiry e), (t, .limit b reset)]) u.values)) := by
  have hrow : ∀ {cs : Calls} {w' : World}, Settings u.id cs w w' → ∀ u' ∈ w'.db.users,
      u'.id = u.id →
      (u'.enabled = 0 ∨ u'.enabled = 1) ∧ u'.values = writeAll cs u.values ∧
      (u'.enabled ≠ 0 ↔ Lets r cs u.values) := by
    intro cs w' hs u' hu' hid
    have hrest := hs.resting hw
    obtain ⟨v, hv, hvid, hvalues, hflag⟩ := settings_flag hw hu h0 hr hs
    obtain rfl : v = u' := eq_of_key hrest.world.1.consistent.userId hv hu' (hvid.trans hid.symm)
    exact ⟨hrest.world.1.enabledBit v hv, hvalues, hflag⟩
  constructor
  · intro cs t s w' hs u' hu' hid
    obtain ⟨hbit, hvalues, hflag⟩ := hrow hs u' hu' hid
    rw [← hflag, ← hvalues]
    constructor
    · intro h
      by_cases hc : u'.values.cause t = true
      · exact .inr hc
      · obtain ⟨hexp, hlim⟩ := cause_values.1 (eq_false_of_ne_true hc)
        exact .inl (by rw [h hexp hlim]; decide)
    · rintro (hen | hc) hexp hlim
      · exact hbit.resolve_left hen
      · rw [cause_values.2 ⟨hexp, hlim⟩] at hc
        simp at hc
  · intro cs ds t e b reset w₁ w₂ hs₁ hs₂ u₁ hu₁ u₂ hu₂ hid₁ hid₂
    obtain ⟨hbit₁, -, hflag₁⟩ := hrow hs₁ u₁ hu₁ hid₁
    obtain ⟨hbit₂, -, hflag₂⟩ := hrow hs₂ u₂ hu₂ hid₂
    -- the calls around the pair are the same calls on the same values
    have hpair : ∀ a c : Int × Setting, Lets r (cs ++ a :: c :: ds) u.values ↔
        Lets r cs u.values ∨ Lets r [a, c] (writeAll cs u.values) ∨
        Lets r ds (writeAll (cs ++ [a, c]) u.values) := by
      intro a c
      rw [show cs ++ a :: c :: ds = cs ++
        ([a, c] ++ ds) by simp, lets_append, lets_append, writeAll_append]
    have hsame : writeAll (cs ++ [(t, .limit b reset), (t, .expiry e)]) u.values =
        writeAll (cs ++ [(t, .expiry e), (t, .limit b reset)]) u.values := by
      rw [writeAll_append, writeAll_append]
      rfl
    rw [hpair] at hflag₁ hflag₂
    rw [hsame] at hflag₂
    have heq : u₁.enabled = u₂.enabled ↔ (u₁.enabled ≠ 0 ↔ u₂.enabled ≠ 0) := by
      rcases hbit₁ with h₁ | h₁ <;> rcases hbit₂ with h₂ | h₂ <;> simp [h₁, h₂]
    rw [heq, hflag₁, hflag₂, ← @lets_swap r t e b reset]
    generalize Lets r cs u.values = before
    generalize Lets r ds _ = after
    by_cases hb : before
    · simp [hb]
    · by_cases ha : after
      · simp [ha]
      · simp [hb, ha]

theorem settings_of_playOps {userId t : Int} : ∀ {xs : List (Setting × List Choice)} {w w' : World},
    playOps (sharp t) (xs.map fun x => (x.1.op userId, x.2)) w = some w' →
      Settings userId (xs.map fun x => (t, x.1)) w w'
  | [], w, w', h => by
    obtain rfl := Option.some.inj h
    exact .nil w
  | (s, cs) :: xs, w, w', h => by
    obtain ⟨⟨p, w₁, l⟩, hplay, h⟩ := Option.bind_eq_some_iff.1 h
    dsimp only at h
    split at h
    · rename_i hout
      have hout := Prog.outcome?_eq_some.1 hout
      subst hout
      exact .cons (Sem.Steps.of_play hplay) (settings_of_playOps h)
    · simp at h

/-- A user whose expiry has passed, disabled for the traffic limit. -/
def overdueSetup : List (Op × List Choice) := sampleSetup ++
  [(.setExpiry 1 (some 0) true, succeed 4 ++ [.inputs ⟨[0], []⟩, .inputs ⟨[], []⟩] ++ succeed 1),
   (.disableUser 1 "traffic_limit", switchOnce)]

/-- A call of a setter that does not let the user in, with these readings of the clock. -/
def settingOnce (times : List Int) : List Choice :=
  succeed 4 ++ [.inputs ⟨[0], []⟩, .inputs ⟨times, []⟩] ++ succeed 1

def limitThenExpiry : List (Setting × List Choice) :=
  [(.limit none "never", settingOnce [0]), (.expiry none, settingOnce [])]

def expiryThenLimit : List (Setting × List Choice) :=
  [(.expiry none, settingOnce []), (.limit none "never", settingOnce [0, 0] ++ succeed 1)]

theorem overdue_plays : ((playOps anything overdueSetup World.initial).bind fun w =>
    (playOps (sharp 0) (limitThenExpiry.map fun x => (x.1.op 1, x.2)) w).bind fun w₁ =>
      (playOps (sharp 0) (expiryThenLimit.map fun x => (x.1.op 1, x.2)) w).map fun w₂ =>
        (w.db.users.any fun u => u.id = 1 && u.enabled = 0 && u.disabledReason = some .trafficLimit,
          w₁.db.users.any fun u => u.id = 1 && u.enabled = 0 && !Users.expired u 0 &&
            !limitReached u,
          w₂.db.users.any fun u => u.id = 1 && u.enabled = 1 && !Users.expired u 0 &&
            !limitReached u)) =
      some (true, true, true) := by decide +kernel

/-- The two orders, from a state of a sequential run. -/
theorem overdue_worlds :
    ∃ w w₁ w₂ : World, Sequence (fun c {_} a s => anything c a s = true) World.initial w ∧
    Settings 1 [(0, .limit none "never"), (0, .expiry none)] w w₁ ∧
      Settings 1 [(0, .expiry none), (0, .limit none "never")] w w₂ ∧
    (∃ u ∈ w.db.users, u.id = 1 ∧ u.enabled = 0 ∧ u.disabledReason = some .trafficLimit) ∧
    (∃ u ∈ w₁.db.users, u.id = 1 ∧ u.enabled = 0 ∧ Users.expired u 0 = false ∧
      limitReached u = false) ∧
    ∃ u ∈ w₂.db.users, u.id = 1 ∧ u.enabled = 1 ∧ Users.expired u 0 = false ∧
      limitReached u = false := by
  obtain ⟨w, hsetup, hr⟩ := Option.bind_eq_some_iff.1 overdue_plays
  obtain ⟨w₁, hfirst, hr⟩ := Option.bind_eq_some_iff.1 hr
  obtain ⟨w₂, hsecond, hr⟩ := Option.map_eq_some_iff.1 hr
  simp only [Prod.mk.injEq, List.any_eq_true, Bool.and_eq_true, decide_eq_true_eq,
    Bool.not_eq_true', and_assoc] at hr
  exact ⟨w, w₁, w₂, (course_of_playOps (P := fun _ => True) (fun _ _ => trivial) hsetup).sequence,
    @settings_of_playOps 1 0 limitThenExpiry _ _ hfirst,
    @settings_of_playOps 1 0 expiryThenLimit _ _ hsecond, hr⟩

theorem setters_restore_iff_overdue :
    ∃ (w w₂ : World) (u₂ : User), Settings 1 [(0, .expiry none), (0, .limit none "never")] w w₂ ∧
    u₂ ∈ w₂.db.users ∧ u₂.id = 1 ∧ u₂.enabled = 1 := by
  obtain ⟨w, w₁, w₂, hseq, -, hs, ⟨u, hu, hid, h0, hr⟩, -, u₂, hu₂, hid₂, -, hexp, hlim⟩ :=
    overdue_worlds
  rw [← hid] at hs
  have h := (setters_restore_iff w (hseq.resting resting_initial) u hu .trafficLimit h0 hr).1
      [(0, .expiry none)] 0
    (.limit none "never") w₂ hs u₂ hu₂ (hid₂.trans hid.symm)
  exact ⟨w, w₂, u₂, hid ▸ hs, hu₂, hid₂, h.2 (.inl (.inr (.inl ⟨rfl, rfl⟩))) hexp hlim⟩

/-- Lifting the limit first and the expiry then leaves the user out, with no cause left; the other
order lets them in. -/
theorem setters_order_matters :
    ∃ w w₁ w₂ : World, Sequence (fun c {_} a s => anything c a s = true) World.initial w ∧
    ∃ u ∈ w.db.users, u.enabled = 0 ∧ u.disabledReason = some .trafficLimit ∧
      Settings u.id [(0, .limit none "never"), (0, .expiry none)] w w₁ ∧
      Settings u.id [(0, .expiry none), (0, .limit none "never")] w w₂ ∧
      (∃ u₁ ∈ w₁.db.users, u₁.id = u.id ∧ Users.expired u₁ 0 = false ∧ limitReached u₁ = false ∧
        u₁.enabled = 0) ∧
      ∃ u₂ ∈ w₂.db.users, u₂.id = u.id ∧ u₂.enabled = 1 := by
  obtain ⟨w, w₁, w₂, hseq, hs₁, hs₂, ⟨u, hu, hid, h0, hr⟩, ⟨u₁, hu₁, hid₁, h0₁, hexp, hlim⟩, u₂,
      hu₂, hid₂, h1₂, -⟩ :=
    overdue_worlds
  rw [← hid] at hs₁ hs₂ hid₁ hid₂
  exact ⟨w, w₁, w₂, hseq, u, hu, h0, hr, hs₁, hs₂, ⟨u₁, hu₁, hid₁, hexp, hlim, h0₁⟩, u₂,
    hu₂, hid₂, h1₂⟩

end WebProxyPanel
