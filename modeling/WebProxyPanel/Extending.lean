import Mathlib
import WebProxyPanel.Sure
/-!
# Extending access

Calls of `extend` on one user, one after the other, in which nothing fails. The base of each is the
clock or the stored expiry, whichever is later; an expiry that is `NULL` counts as none, so the
first call gives a user without an expiry one.

* `Extension.Call` — one call, with the readings of the clock that it makes.
* `Extension.Call.extended` — what one call does; `Extended.expiry` — what the calls lead to.
-/

namespace WebProxyPanel
open Table Effects Users

/-! ## Calls -/

/-- A call of `extend`, and what the outside does in it. -/
structure Extension where
  days : Int
  enableNow : Bool
  choices : List Choice

namespace Extension

def readings (x : Extension) : List Int := x.choices.flatMap Choice.readings

/-- A call with a positive number of days, up to its end. -/
structure Call (userId : Int) (x : Extension) (w : World) (out : Except Err Int) (w' : World) :
    Prop where
  days : 0 < x.days
  noFault : ∀ c ∈ x.choices, c.result = .ok
  run : ∃ n l, sem.play anything x.choices (extend userId x.days x.enableNow) (w, Own.idle n) =
    some (.ended out, (w', l))

end Extension

/-- The readings of all calls, in their order. -/
def clock (xs : List Extension) : List Int := xs.flatMap Extension.readings

/-- Calls on one user, one after the other. -/
inductive Extended (userId : Int) (w : World) : List Extension → World → Prop
  | nil : Extended userId w [] w
  | snoc {xs : List Extension} {x : Extension} {out : Except Err Int} {w₁ w₂ : World} :
      Extended userId w xs w₁ → x.Call userId w₁ out w₂ → Extended userId w (xs ++ [x]) w₂

/-- The moment at which the access of a user expires; `NULL` is never. -/
def User.expires (u : User) : WithTop ℤ := u.expiresAt.elim ⊤ fun e => (e : WithTop ℤ)

theorem User.expires_none {u : User} (h : u.expiresAt = none) : u.expires = ⊤ := by
  unfold User.expires
  rw [h]
  rfl

theorem User.expires_some {u : User} {e : Int} (h : u.expiresAt = some e) :
    u.expires = (e : WithTop ℤ) := by
  unfold User.expires
  rw [h]
  rfl

/-! ## One call -/

/-- What the call returns is the stored expiry, and it lies `days` after the clock or the expiry
before. -/
def Lengthened (T : Int → Prop) (userId days : Int) (D : DB) (e : Int) (db' : DB) : Prop :=
  ∃ t, T t ∧ ∃ u ∈ D.users, u.id = userId ∧ e = max t (u.expiresAt.getD 0) + days * day ∧
    ∃ u' ∈ db'.users, u'.id = userId ∧ u'.expiresAt = some e

theorem Setter.exists_row {T : Int → Prop} {enableNow : Bool} {reason : Reason}
    {expiresAt : Option Int} {userId : Int} {D db' : DB} {calls : List FwCall}
    (h : Setter T enableNow reason (withExpiry expiresAt) userId D db' calls) :
    ∃ u' ∈ db'.users, u'.id = userId ∧ u'.expiresAt = expiresAt := by
  cases h with
  | @reenabled u hu hid _ _ husers _ =>
    refine ⟨setEnabled (withExpiry expiresAt u), ?_, hid, rfl⟩
    rw [husers]
    exact mem_update.2 ⟨u, hu, by rw [if_pos (decide_eq_true hid)]⟩
  | @changed u hu hid _ husers _ =>
    refine ⟨withExpiry expiresAt u, ?_, hid, rfl⟩
    rw [husers]
    exact mem_update.2 ⟨u, hu, by rw [if_pos (decide_eq_true hid)]⟩

theorem ends_lengthened (T : Int → Prop) (userId days : Int) (enableNow : Bool) (D : DB) :
    Ends T (do
      let expiresAt ← sql (extendRows userId days)
      setExpiry userId (some expiresAt) enableNow
      pure expiresAt) (fun e db' _ => Lengthened T userId days D e db') D [] := by
  refine Ends.bind (Ends.sql
    (Sql.Ends.bind (ends_user fun u hu huid => Sql.Ends.bind (Sql.Ends.now fun t ht => ?_))))
  refine Sql.Ends.pure (Ends.bind
    (Ends.change ((ends_setExpiry userId _ enableNow D).mono fun _ db' calls h => ?_)))
  exact ⟨t, ht, u, hu, huid, rfl, h.1.exists_row⟩

section Calls
variable {w w₁ w' : World} {u : User} {x : Extension} {xs : List Extension} {out : Except Err Int}

theorem Extension.Call.extended (hw : Resting w) (hu : u ∈ w.db.users) (h : x.Call u.id w out w') :
    Resting w' ∧ ∃ e, out = .ok e ∧ ∃ t ∈ x.readings,
      e = max t (u.expiresAt.getD 0) + x.days * day ∧
      ∃ u' ∈ w'.db.users, u'.id = u.id ∧ u'.expiresAt = some e := by
  have hc := hw.world.1.consistent
  obtain ⟨n, l, hplay⟩ := h.run
  have hrun := Sem.Steps.of_play_mem (List.Subset.refl _) hplay
  unfold extend at hrun
  rw [if_neg (not_le.2 h.days)] at hrun
  obtain ⟨e, rfl⟩ := Sure.returns faultFree_noFault
      (sure_extend hc hu x.days x.enableNow) hw.writer rfl
    (hrun.mono fun c _ _ _ hmem => h.noFault c hmem)
  have hclocked : Clocked (· ∈ x.readings) fun c {_} (_ : Action _) (_ : State) =>
      c ∈ x.choices := by
    intro inp β a s hmem t ht
    exact List.mem_flatMap.2 ⟨_, hmem, ht⟩
  have hsafe := Ends.safe_change (w := w) (l := Own.idle n) hclocked
      (fun D => ends_lengthened _ u.id x.days x.enableNow D) rfl
  obtain ⟨-, -, ⟨t, ht, u₀, hu₀, hid₀, he, hrow⟩, -⟩ := Safe.runs isRely_alone hsafe hrun
  obtain rfl : u₀ = u := eq_of_key hc.userId hu₀ hu hid₀
  have hprogram : sem.Runs (fun c {_} _ _ => c ∈ x.choices)
      (Op.extend u₀.id x.days x.enableNow).program (w, Own.idle n) (.ok ()) (w', l) :=
    Sem.Runs.bind (Sem.Steps.of_play_mem (List.Subset.refl _) hplay) .refl
  exact ⟨(resting_runs hw hprogram).1, e, rfl, t, ht, he, hrow⟩

/-- Such a call is possible at any time, and the clock may show any value. -/
theorem exists_call (hw : Resting w) (hu : u ∈ w.db.users) {days : Int} (hdays : 0 < days)
    (enableNow : Bool) (t : Int) :
    ∃ (x : Extension) (e : Int) (w' : World), x.days = days ∧ x.enableNow = enableNow ∧
      (∀ r ∈ x.readings, r = t) ∧
      x.Call u.id w (.ok e) w' := by
  have hok : FaultFree (fun c {_} (_ : Action _) (_ : State) => c.result = .ok ∧
      ∀ r ∈ c.readings, r = t) t :=
    ⟨fun _ _ _ _ h => h.1, fun _ _ _ _ hc ht => ⟨hc, ht⟩⟩
  obtain ⟨e, s, hrun⟩ := Sure.exists_run hok (sure_extend hw.world.1.consistent hu days enableNow)
      hw.writer (l := Own.idle 0) rfl
  obtain ⟨cs, hcs, hplay⟩ : ∃ cs, (∀ c ∈ cs, Choice.result c = .ok ∧ ∀ r ∈ c.readings, r = t) ∧
      sem.play anything cs (extend u.id days enableNow) (w, Own.idle 0) =
      some (.ended (.ok e), s) := by
    unfold extend
    rw [if_neg (not_le.2 hdays)]
    refine Sem.Steps.exists_play ?_ hrun
    exact fun _ _ _ _ h => ⟨rfl, h⟩
  refine ⟨⟨days, enableNow, cs⟩, e, s.1, rfl, rfl, fun r hr => ?_, hdays, fun c hc => (hcs c hc).1,
    0, s.2, hplay⟩
  obtain ⟨c, hc, hr⟩ := List.mem_flatMap.1 hr
  exact (hcs c hc).2 r hr

/-! ## Runs -/

/-- The first reading is the earliest. -/
theorem head_le_of_pairwise {ts : List Int} (h : ts.Pairwise (· ≤ ·)) {t : Int} (ht : t ∈ ts) :
    ∃ t₀, ts.head? = some t₀ ∧ t₀ ≤ t := by
  cases ts with
  | nil => simp at ht
  | cons t₀ ts =>
    refine ⟨t₀, rfl, ?_⟩
    rcases List.mem_cons.1 ht with rfl | ht
    · exact le_refl t
    · exact (List.pairwise_cons.1 h).1 t ht

/-- The expiry that the calls lead to: all their days after the expiry before the first one, or
after its reading of the clock. -/
def Reaches (u : User) (xs : List Extension) (e : Int) : Prop :=
  ∃ t, (clock xs).head? = some t ∧ max (u.expiresAt.getD t) t +
    day * (xs.map Extension.days).sum ≤ e

theorem clock_snoc : clock (xs ++ [x]) = clock xs ++ x.readings := by
  simp [clock]

/-- One call more. -/
theorem Reaches.snoc {e : Int} (h : Reaches u xs e) (t : Int) :
    Reaches u (xs ++ [x]) (max t e + x.days * day) := by
  obtain ⟨t₀, ht₀, hle⟩ := h
  refine ⟨t₀, ?_, ?_⟩
  · rw [clock_snoc, List.head?_append, ht₀]
    rfl
  · rw [List.map_append, List.sum_append, List.map_singleton, List.sum_singleton, Int.mul_add,
      ← Int.add_assoc, Int.mul_comm x.days]
    exact Int.add_le_add_right (hle.trans (le_max_right t e)) _

/-- The first call. -/
theorem Reaches.first (hclock : (clock [x]).Pairwise (· ≤ ·)) {t : Int} (ht : t ∈ x.readings) :
    Reaches u [x] (max t (u.expiresAt.getD 0) + x.days * day) := by
  have hmem : t ∈ clock [x] := List.mem_flatMap.2 ⟨x, by simp, ht⟩
  obtain ⟨t₀, ht₀, hle⟩ := head_le_of_pairwise hclock hmem
  refine ⟨t₀, ht₀, ?_⟩
  rw [List.map_singleton, List.sum_singleton, Int.mul_comm]
  refine Int.add_le_add_right ?_ _
  cases u.expiresAt with
  | none =>
    refine max_le ?_ ?_
    · exact hle.trans (le_max_left _ _)
    · exact hle.trans (le_max_left _ _)
  | some e => exact max_le (le_max_right t e) (hle.trans (le_max_left t e))

/-- The row after some calls: as it was, or with an expiry that all of them have moved. -/
theorem Extended.expiry (hw : Resting w) (hu : u ∈ w.db.users) (h : Extended u.id w xs w')
    (hclock : (clock xs).Pairwise (· ≤ ·)) :
    Resting w' ∧ ∃ u' ∈ w'.db.users, u'.id = u.id ∧
      (xs = [] ∧ u' = u ∨ xs ≠ [] ∧ ∃ e, u'.expiresAt = some e ∧ Reaches u xs e) := by
  induction h with
  | nil => exact ⟨hw, u, hu, rfl, .inl ⟨rfl, rfl⟩⟩
  | @snoc xs x out w₁ w₂ _ hcall ih =>
    rw [clock_snoc] at hclock
    obtain ⟨hw₁, u₁, hu₁, hid₁, hrow⟩ := ih (List.pairwise_append.1 hclock).1
    rw [← hid₁] at hcall
    obtain ⟨hw₂, e, -, t, ht, rfl, u₂, hu₂, hid₂, he₂⟩ := hcall.extended hw₁ hu₁
    refine ⟨hw₂, u₂, hu₂, hid₂.trans hid₁, .inr ⟨by simp, _, he₂, ?_⟩⟩
    rcases hrow with ⟨rfl, rfl⟩ | ⟨-, e₁, he₁, hreach⟩
    · exact Reaches.first (by simpa [clock] using hclock) ht
    · rw [he₁]
      exact hreach.snoc t

end Calls

/-- Calls of `extend` on one user at nondecreasing readings of the clock, with or without
`enable_now`: each returns the stored expiry; none moves the moment of expiry to an earlier one, but
for the first call on a user who has no expiry; and after them the expiry is at least the initial
one, if there is one, and the first reading, plus all the days. -/
theorem extend_keepsAccess (w : World) (hw : Resting w) (u : User) (hu : u ∈ w.db.users)
    (xs : List Extension) (w₁ : World) (hxs : Extended u.id w xs w₁) (x : Extension)
    (out : Except Err Int) (w₂ : World) (hx : x.Call u.id w₁ out w₂)
    (hclock : (clock (xs ++ [x])).Pairwise (· ≤ ·)) :
    ∃ u₁ ∈ w₁.db.users, ∃ u₂ ∈ w₂.db.users, u₁.id = u.id ∧ u₂.id = u.id ∧
      ∃ e, out = .ok e ∧ u₂.expiresAt = some e ∧
        (u₁.expires ≤ u₂.expires ↔ ¬ (xs = [] ∧ u.expiresAt = none)) ∧
        ∃ t, (clock (xs ++ [x])).head? = some t ∧
          max (u.expiresAt.getD t) t + 86400 * ((xs ++ [x]).map Extension.days).sum ≤ e := by
  have hprefix : (clock xs).Pairwise (· ≤ ·) := by
    rw [clock_snoc] at hclock
    exact (List.pairwise_append.1 hclock).1
  obtain ⟨hw₁, u₁, hu₁, hid₁, hrow⟩ := hxs.expiry hw hu hprefix
  rw [← hid₁] at hx
  obtain ⟨hw₂, e, rfl, t, ht, he, u₂, hu₂, hid₂, he₂⟩ := hx.extended hw₁ hu₁
  have hpos : 0 < x.days * day := Int.mul_pos hx.days (by decide)
  refine ⟨u₁, hu₁, u₂, hu₂, hid₁, hid₂.trans hid₁, e, rfl, he₂, ?_, ?_⟩
  · rw [User.expires_some he₂]
    cases he₁ : u₁.expiresAt with
    | none =>
      -- only the first call can find no expiry
      rw [User.expires_none he₁]
      rcases hrow with ⟨rfl, rfl⟩ | ⟨-, e₁, he₁', -⟩
      · simp [he₁]
      · rw [he₁] at he₁'
        simp at he₁'
    | some e₁ =>
      rw [he₁, Option.getD_some] at he
      rw [User.expires_some he₁, WithTop.coe_le_coe]
      have hle : e₁ ≤ e := by omega
      refine iff_of_true hle ?_
      rintro ⟨rfl, hnone⟩
      rcases hrow with ⟨-, rfl⟩ | ⟨hne, -⟩
      · rw [he₁] at hnone
        simp at hnone
      · exact hne rfl
  · rcases hrow with ⟨rfl, rfl⟩ | ⟨-, e₁, he₁, hreach⟩
    · rw [he]
      exact Reaches.first hclock ht
    · rw [he, he₁]
      exact hreach.snoc t

/-- One day with `enable_now` and two without, for a user who is enabled. -/
def sampleExtensions : Extension × Extension :=
  (⟨1, true, succeed 4 ++ [.inputs ⟨[0], []⟩] ++ succeed 1 ++
    [.inputs ⟨[3], []⟩, .inputs ⟨[], []⟩] ++ succeed 1⟩,
    ⟨2, false, succeed 4 ++ [.inputs ⟨[5], []⟩] ++ succeed 1 ++ [.inputs ⟨[5], []⟩] ++ succeed 1⟩)

theorem sampleExtensions_play :
    ((sem.play anything sampleExtensions.1.choices (extend 1 1 true)
      (World.sample, Own.idle 0)).bind fun x =>
      (sem.play anything sampleExtensions.2.choices (extend 1 2 false) (x.2.1, Own.idle 0)).map
        fun y =>
        (x.1.outcome?, y.1.outcome?, World.sample.db.users.any fun u => u.id = 1 &&
          u.expiresAt = none)) =
      some (some (.ok 86400), some (.ok 259200), true) := by decide +kernel

/-- Two calls on a user without an expiry. -/
theorem sampleExtensions_calls : ∃ w₁ w₂ : World, ∃ u ∈ World.sample.db.users, u.expiresAt = none ∧
    sampleExtensions.1.Call u.id World.sample (.ok 86400) w₁ ∧
      sampleExtensions.2.Call u.id w₁ (.ok 259200) w₂ := by
  obtain ⟨⟨p, w₁, l₁⟩, hfirst, h⟩ := Option.bind_eq_some_iff.1 sampleExtensions_play
  obtain ⟨⟨q, w₂, l₂⟩, hsecond, h⟩ := Option.map_eq_some_iff.1 h
  simp only [Prod.mk.injEq, List.any_eq_true, Bool.and_eq_true, decide_eq_true_eq] at h
  obtain ⟨hp, hq, u, hu, hid, hnone⟩ := h
  obtain rfl := Prog.outcome?_eq_some.1 hp
  obtain rfl := Prog.outcome?_eq_some.1 hq
  have hcall : sampleExtensions.1.Call 1 World.sample (.ok 86400) w₁ :=
    ⟨by decide, by decide, 0, l₁, hfirst⟩
  have hcall' : sampleExtensions.2.Call 1 w₁ (.ok 259200) w₂ :=
    ⟨by decide, by decide, 0, l₂, hsecond⟩
  rw [← hid] at hcall hcall'
  exact ⟨w₁, w₂, u, hu, hnone, hcall, hcall'⟩

theorem extend_keepsAccess_twice :
    ∃ (u₁ u₂ : User) (e : Int), u₁.expires ≤ u₂.expires ∧ u₂.expiresAt = some e ∧
      86400 * 3 ≤ e := by
  obtain ⟨w₁, w₂, u, hu, hnone, hfirst, hsecond⟩ := sampleExtensions_calls
  obtain ⟨u₁, -, u₂, -, -, -, e, -, he, hle, t, ht, hsum⟩ :=
    extend_keepsAccess World.sample (sequence_sample.resting resting_initial) u
    hu [sampleExtensions.1] w₁ (.snoc .nil hfirst) sampleExtensions.2 (.ok 259200) w₂
    hsecond (by decide)
  obtain rfl : t = 0 := by
    simpa [sampleExtensions, clock, Extension.readings, Choice.readings, succeed] using ht.symm
  refine ⟨u₁, u₂, e, hle.2 (by simp), he, ?_⟩
  simpa [hnone, sampleExtensions] using hsum

/-- The first call on a user who has no expiry gives them one: before it the access would never have
expired. -/
theorem extend_limitsAccess :
    ∃ w₁ : World, Sequence (fun c {_} a s => anything c a s = true) World.initial World.sample ∧
    ∃ u ∈ World.sample.db.users, ∃ (x : Extension) (e : Int), x.Call u.id World.sample (.ok e) w₁ ∧
      ∃ u₁ ∈ w₁.db.users, u₁.id = u.id ∧ u₁.expiresAt = some e ∧ ¬ u.expires ≤ u₁.expires := by
  obtain ⟨w₁, -, u, hu, hnone, hfirst, -⟩ := sampleExtensions_calls
  obtain ⟨-, e, he, -, -, -, u₁, hu₁, hid, he₁⟩ :=
    hfirst.extended (sequence_sample.resting resting_initial) hu
  refine ⟨w₁, sequence_sample, u, hu, sampleExtensions.1, 86400, hfirst, u₁, hu₁, hid, ?_, ?_⟩
  · rw [he₁, Except.ok.inj he]
  · rw [User.expires_none hnone, User.expires_some he₁]
    exact not_le.2 (WithTop.coe_lt_top e)

end WebProxyPanel
