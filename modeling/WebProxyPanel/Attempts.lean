import WebProxyPanel.RollBack
/-!
# Which steps a failed `apply` attempts

The handler of `apply` promises that one failing step does not skip the rest. Its groups of calls
share `try` blocks: the restores are one, `stop` and `disable` of a shard are one, the restarts of
the old shards and of the relay are one. A group ends at its first failing call.

* `attempted` — the calls that one `try` makes of its list.
* `pattern F` — the calls of the handler that raise are exactly those of `F`; the database does not
  fail.
* `rollBack_attempts_iff` — every step is attempted if and only if no failing call has a step after
  it in its group.
-/

namespace WebProxyPanel
open Effects

/-! ## One `try` -/

/-- A list of calls in one `try` ends at the first that raises. -/
def attempted {κ : Type} (F : κ → Bool) : List κ → List κ
  | [] => []
  | c :: cs => if F c then [c] else c :: attempted F cs

section Attempted
variable {κ : Type} {F : κ → Bool}

theorem mem_attempted {c : κ} {cs : List κ} :
    c ∈ attempted F cs ↔ ∃ pre suf, cs = pre ++ c :: suf ∧ ∀ d ∈ pre, F d = false := by
  induction cs with
  | nil => simp [attempted]
  | cons d cs ih =>
    by_cases hd : F d = true
    · simp only [attempted, if_pos hd, List.mem_singleton]
      constructor
      · rintro rfl
        exact ⟨[], cs, rfl, by simp⟩
      · rintro ⟨pre, suf, heq, hpre⟩
        cases pre with
        | nil => exact (List.cons.inj heq).1.symm
        | cons x pre =>
          have hx := hpre x List.mem_cons_self
          rw [← (List.cons.inj heq).1, hd] at hx
          simp at hx
    · simp only [attempted, if_neg hd, List.mem_cons, ih]
      constructor
      · rintro (rfl | ⟨pre, suf, rfl, hpre⟩)
        · exact ⟨[], cs, rfl, by simp⟩
        · refine ⟨d :: pre, suf, rfl, fun x hx => ?_⟩
          rcases List.mem_cons.1 hx with rfl | hx
          · exact eq_false_of_ne_true hd
          · exact hpre x hx
      · rintro ⟨pre, suf, heq, hpre⟩
        cases pre with
        | nil => exact .inl (List.cons.inj heq).1.symm
        | cons x pre =>
          exact .inr ⟨pre, suf, (List.cons.inj heq).2, fun y hy =>
            hpre y (List.mem_cons_of_mem _ hy)⟩

/-- A list that goes on after its end. -/
theorem attempted_append {cs ds : List κ} (h : ∀ c ∈ cs, F c = false) :
    attempted F (cs ++ ds) = cs ++ attempted F ds := by
  induction cs with
  | nil => rfl
  | cons c cs ih =>
    rw [List.cons_append, attempted, h c List.mem_cons_self, ih fun d hd =>
      h d (List.mem_cons_of_mem _ hd)]
    rfl

theorem attempted_stops {cs ds : List κ} (h : ∃ c ∈ cs, F c = true) :
    attempted F (cs ++ ds) = attempted F cs := by
  induction cs with
  | nil => simp at h
  | cons c cs ih =>
    by_cases hc : F c = true
    · simp [attempted, hc]
    · obtain ⟨d, hd, hF⟩ := h
      rcases List.mem_cons.1 hd with rfl | hd
      · exact absurd hF hc
      · simp [attempted, hc, ih ⟨d, hd, hF⟩]

/-- The last call of a `try` is made if no call before it fails. -/
theorem last_attempted {c : κ} {cs : List κ} (hc : c ∉ cs) :
    c ∈ attempted F (cs ++ [c]) ↔ ∀ d ∈ cs, F d = false := by
  constructor
  · intro h d hd
    by_contra hne
    rw [attempted_stops ⟨d, hd, eq_true_of_ne_false hne⟩] at h
    obtain ⟨pre, suf, heq, -⟩ := mem_attempted.1 h
    exact hc (heq ▸ by simp)
  · intro h
    rw [attempted_append h]
    simp [attempted]

end Attempted

/-! ## Fault patterns -/

/-- The calls that the handler makes for its own sake. -/
def Call.isStep : Call → Bool
  | .writeFile _ _ | .removeFile _ | .stopShard _ | .disableShard _ | .restartShard _ |
    .restartRelay =>
    true
  | _ => false

def Call.isDatabase : Call → Bool
  | .begin_ | .commit | .rollback | .statements => true
  | _ => false

/-- Of the steps those in `F` raise, with or without effect, and no other; the database does not
fail; the sync may. -/
def pattern (F : Call → Bool) : Allow Action Choice State :=
  fun c {_} a _ => ∀ call, a.call? = some call →
  (call.isStep = true → (c.result = .raised ↔ F call = true)) ∧
  (call.isDatabase = true → c.result ≠ .raised)

/-- Some calls later: the database and the transactions are as they were. -/
structure Went (w : World) (l : Own) (cs : List Call) (w' : World) (l' : Own) : Prop where
  db : w'.db = w.db
  inTx : l'.inTx = l.inTx
  calls : l'.trace.map (·.call) = l.trace.map (·.call) ++ cs

section Went
variable {w w₁ w₂ : World} {l l₁ l₂ : Own} {cs ds : List Call}

theorem Went.refl (w : World) (l : Own) : Went w l [] w l := ⟨rfl, rfl, by simp⟩

theorem Went.trans (h : Went w l cs w₁ l₁) (h' : Went w₁ l₁ ds w₂ l₂) : Went w l (cs ++ ds) w₂ l₂ :=
  ⟨h'.db.trans h.db, h'.inTx.trans h.inTx, by rw [h'.calls, h.calls, List.append_assoc]⟩

theorem Went.note {call : Call} {r : Result} (hdb : w₁.db = w.db) :
    Went w l [call] w₁ (l.note [⟨call, r⟩]) :=
  ⟨hdb, rfl, by simp [Own.note]⟩

end Went

section Steps
variable {F : Call → Bool} {w : World} {l : Own}

/-- One step. -/
theorem attempt_step {a : Action Unit} {call : Call} (effect : World → World)
    (hcall : a.call? = some call) (hstep : call.isStep = true)
    (ha : ∀ c s, respond c a s = plain c effect s) (hdb : ∀ w, (effect w).db = w.db) :
    Safe sem (pattern F) alone free
      (post (fun _ w' l' => F call = false ∧ w' = effect w ∧ Went w l [call] w' l')
        fun _ w' l' => F call = true ∧ (w' = w ∨ w' = effect w) ∧
          Went w l [call] w' l') (.call a) w l := by
  refine Safe.callStable (stable_alone _) ?_
  rintro _ rfl
  refine ⟨trivial, fun r w₂ l₂ hn => ?_⟩
  obtain ⟨c, hc, h⟩ := hn
  have hF := (hc call hcall).1 hstep
  cases c <;> simp [sem, perform, ha, plain, entries, hcall] at h
  case ok =>
    obtain ⟨rfl, rfl, rfl⟩ := h
    exact ⟨eq_false_of_ne_true
      fun hf => by simp [Choice.result] at hF; simp [hF] at hf, rfl, .note (hdb w)⟩
  case fail msg done =>
    obtain ⟨rfl, rfl, rfl⟩ := h
    refine ⟨hF.1 rfl, ?_, ?_⟩
    · cases done <;> simp
    · cases done
      · exact .note rfl
      · exact .note (hdb w)

/-- The call that puts one file back. -/
def restoreCall (x : Path × Option Content) : Call :=
  match x.2 with
  | none => .removeFile x.1
  | some data => .writeFile x.1 data

/-- What the restores leave in the files. -/
structure Restored (F : Call → Bool) (previous : List (Path × Option Content)) (w w' : World) :
    Prop where
  done : ∀ pre x suf, previous = pre ++ x :: suf → (∀ y ∈ pre, F (restoreCall y) = false) →
    F (restoreCall x) = false → w'.files x.1 = x.2
  skipped : ∀ pre x suf, previous = pre ++ x :: suf → (∃ y ∈ pre, F (restoreCall y) = true) →
    w'.files x.1 = w.files x.1
  others : ∀ path, path ∉ previous.map (·.1) → w'.files path = w.files path

theorem attempt_restoreCall (x : Path × Option Content) :
    Safe sem (pattern F) alone free
      (post (fun _ w' l' => F (restoreCall x) = false ∧ w' = w.setFile x.1 x.2 ∧
        Went w l [restoreCall x] w' l')
        fun _ w' l' => F (restoreCall x) = true ∧ (w' = w ∨ w' = w.setFile x.1 x.2) ∧
          Went w l [restoreCall x] w' l')
      (match x.2 with
        | none => .call (.removeFile x.1)
        | some data => .call (.writeFile x.1 data)) w l := by
  obtain ⟨path, data⟩ := x
  cases data with
  | none => exact attempt_step (World.setFile path none) rfl rfl (fun _ _ => rfl) fun _ => rfl
  | some data =>
    exact attempt_step (World.setFile path (some data)) rfl rfl (fun _ _ => rfl) fun _ => rfl

/-- What `restore` leaves, either way out. -/
def AfterRestore (F : Call → Bool) (previous : List (Path × Option Content)) (w : World) (l : Own)
    (w' : World) (l' : Own) : Prop :=
  Restored F previous w w' ∧ Went w l (attempted F (previous.map restoreCall)) w' l'

theorem attempt_restore :
    ∀ (previous : List (Path × Option Content)) {w : World} {l : Own}, (previous.map (·.1)).Nodup →
    Safe sem (pattern F) alone free (post (fun _ => AfterRestore F previous w l) fun _ =>
      AfterRestore F previous w l)
      (restore previous) w l
  | [], w, l, _ => Safe.retStable (stable_alone _) ⟨⟨by simp, by simp, fun _ _ => rfl⟩, .refl w l⟩
  | x :: previous, w, l, hnd => by
    obtain ⟨hx, hnd⟩ := List.nodup_cons.1 hnd
    have hfile : ∀ z ∈ previous, ∀ data : Option Content, (w.setFile x.1 data).files z.1 =
        w.files z.1 := by
      intro z hz data
      have hne : z.1 ≠ x.1 := fun h => hx (List.mem_map.2 ⟨z, hz, h⟩)
      simp [World.setFile, hne]
    unfold restore
    show Safe _ _ _ _ _ (Prog.bind _ fun _ => restore previous) w l
    refine Safe.seq isRely_alone ((attempt_restoreCall x).mono ?_)
      (K := fun _ w' l' => F (restoreCall x) = false ∧ w' = w.setFile x.1 x.2 ∧
        Went w l [restoreCall x] w' l') ?_
    · rintro (e | a) w₁ l₁ hq
      · obtain ⟨hF, hw, hwent⟩ := hq
        refine ⟨⟨?_, ?_, ?_⟩, by simpa [attempted, hF] using hwent⟩
        · intro pre z suf heq hpre hz
          cases pre with
          | nil =>
            obtain rfl := (List.cons.inj heq).1
            simp [hF] at hz
          | cons y pre =>
            have hy := hpre y List.mem_cons_self
            rw [← (List.cons.inj heq).1, hF] at hy
            simp at hy
        · intro pre z suf heq hpre
          cases pre with
          | nil => simp at hpre
          | cons y pre =>
            have hz : z ∈ previous := (List.cons.inj heq).2 ▸ by simp
            rcases hw with rfl | rfl
            · rfl
            · exact hfile z hz _
        · intro path hpath
          rcases hw with rfl | rfl
          · rfl
          · have hne : path ≠ x.1 := fun h => hpath (by simp [h])
            simp [World.setFile, hne]
      · exact hq
    · rintro _ w₁ l₁ ⟨hF, rfl, hwent⟩
      have hafter : ∀ w' l', AfterRestore F previous (w.setFile x.1 x.2) l₁ w' l' →
          AfterRestore F (x :: previous) w l w' l' := by
        rintro w' l' ⟨hr, hw'⟩
        refine ⟨⟨?_, ?_, ?_⟩, ?_⟩
        · intro pre z suf heq hpre hz
          cases pre with
          | nil =>
            obtain rfl := (List.cons.inj heq).1
            rw [hr.others _ hx]
            simp [World.setFile]
          | cons y pre =>
            exact hr.done pre z suf (List.cons.inj heq).2
              (fun y hy => hpre y (List.mem_cons_of_mem _ hy)) hz
        · intro pre z suf heq hpre
          cases pre with
          | nil => simp at hpre
          | cons y pre =>
            obtain ⟨rfl, htail⟩ := List.cons.inj heq
            have hz : z ∈ previous := by simp [htail]
            obtain ⟨y, hy, hFy⟩ := hpre
            rcases List.mem_cons.1 hy with rfl | hy
            · simp [hF] at hFy
            · rw [hr.skipped pre z suf htail ⟨y, hy, hFy⟩, hfile z hz]
        · intro path hpath
          have hne : path ≠ x.1 := fun h => hpath (by simp [h])
          rw [hr.others path fun h => hpath (by simp [h])]
          simp [World.setFile, hne]
        · simpa [attempted, hF] using hwent.trans hw'
      refine (attempt_restore previous hnd).mono ?_
      rintro (e | a) w' l' hq
      · exact hafter w' l' hq
      · exact hafter w' l' hq

/-- A loop of steps that leave the files alone. -/
theorem attempt_loop {f : Int → Action Unit} {g : Int → Call}
    (hcall : ∀ k, (f k).call? = some (g k)) (hstep : ∀ k, (g k).isStep = true)
    (ha : ∀ k c s, respond c (f k) s = plain c id s) : ∀ (ks : List Int) {w : World} {l : Own},
    Safe sem (pattern F) alone free
      (post (fun _ w' l' => (∀ c ∈ ks.map g, F c = false) ∧ w' = w ∧ Went w l (ks.map g) w' l')
        fun _ w' l' => (∃ c ∈ ks.map g, F c = true) ∧ w' = w ∧
          Went w l (attempted F (ks.map g)) w' l')
      (ks.forM fun k => .call (f k)) w l
  | [], w, l => Safe.retStable (stable_alone _) ⟨by simp, rfl, .refl w l⟩
  | k :: ks, w, l => by
    show Safe _ _ _ _ _ (Prog.bind _ fun _ => ks.forM fun k => .call (f k)) w l
    refine Safe.seq isRely_alone ((attempt_step id (hcall k) (hstep k) (ha k) fun _ => rfl).mono ?_)
      (K := fun _ w' l' => F (g k) = false ∧ w' = w ∧ Went w l [g k] w' l') ?_
    · rintro (e | a) w₁ l₁ hq
      · obtain ⟨hF, hw, hwent⟩ := hq
        exact ⟨⟨g k, by simp, hF⟩, hw.elim id id, by simpa [attempted, hF] using hwent⟩
      · exact hq
    · rintro _ _ l₁ ⟨hF, rfl, hwent⟩
      refine (attempt_loop hcall hstep ha ks).mono ?_
      rintro (e | a) w' l' hq
      · obtain ⟨⟨c, hc, hFc⟩, hw, hw'⟩ := hq
        exact ⟨⟨c, List.mem_cons_of_mem _ hc, hFc⟩,
          hw, by simpa [attempted, hF] using hwent.trans hw'⟩
      · obtain ⟨hcs, hw, hw'⟩ := hq
        refine ⟨fun c hc => ?_, hw, by simpa using hwent.trans hw'⟩
        rcases List.mem_cons.1 hc with rfl | hc
        · exact hF
        · exact hcs c hc

/-- The calls for one new shard. -/
def unitCalls (k : Int) : List Call := [.stopShard k, .disableShard k]

/-- The restarts of the old configuration. -/
def restartCalls (a : ApplyArgs) : List Call :=
  (a.shards.filter (· ∉ a.newShards)).map .restartShard ++ [.restartRelay]

/-- The files stay. -/
def Passed (w : World) (l : Own) (cs : List Call) (w' : World) (l' : Own) : Prop :=
  w'.files = w.files ∧ Went w l cs w' l'

theorem Passed.trans {w w₁ w₂ : World} {l l₁ l₂ : Own} {cs ds : List Call} (h : Passed w l cs w₁ l₁)
    (h' : Passed w₁ l₁ ds w₂ l₂) :
    Passed w l (cs ++ ds) w₂ l₂ := ⟨h'.1.trans h.1, h.2.trans h'.2⟩

theorem attempt_unit (k : Int) : Safe sem (pattern F) alone free
    (post (fun _ => Passed w l (attempted F (unitCalls k))) fun _ _ _ => False)
    (bestEffort ((Prog.call (.stopShard k)).bind fun _ => .call (.disableShard k))) w l := by
  refine Safe.handle isRely_alone (E := fun _ => Passed w l (attempted F (unitCalls k))) ?_
    fun e w' l' h =>
    Safe.retStable (stable_alone _) h
  refine Safe.seq isRely_alone ((attempt_step id rfl rfl (fun _ _ => rfl) fun _ => rfl).mono ?_)
    (K := fun _ w' l' => F (.stopShard k) = false ∧ w' = w ∧ Went w l [.stopShard k] w' l') ?_
  · rintro (e | a) w₁ l₁ hq
    · obtain ⟨hF, hw, hwent⟩ := hq
      exact ⟨by rw [hw.elim id id], by simpa [attempted, unitCalls, hF] using hwent⟩
    · exact hq
  · rintro _ _ l₁ ⟨hF, rfl, hwent⟩
    refine (attempt_step (fun w => w.setUnits (w.units.erase k)) rfl rfl (fun _ _ => rfl) fun _ =>
      rfl).mono ?_
    rintro (e | a) w₁ l₂ hq
    · obtain ⟨hF', hw, hw'⟩ := hq
      refine ⟨?_, by simpa [attempted, unitCalls, hF, hF'] using hwent.trans hw'⟩
      rcases hw with rfl | rfl
      · rfl
      · rfl
    · obtain ⟨hF', rfl, hw'⟩ := hq
      exact ⟨rfl, by simpa [attempted, unitCalls, hF, hF'] using hwent.trans hw'⟩

theorem attempt_units : ∀ (ks : List Int) {w : World} {l : Own}, Safe sem (pattern F) alone free
    (post (fun _ => Passed w l (ks.flatMap fun k => attempted F (unitCalls k))) fun _ _ _ => False)
    (ks.forM fun k => bestEffort ((Prog.call (.stopShard k)).bind fun _ => .call (.disableShard k)))
      w l
  | [], w, l => Safe.retStable (stable_alone _) ⟨rfl, .refl w l⟩
  | k :: ks, w, l => by
    show Safe _ _ _ _ _ (Prog.bind _ fun _ => ks.forM _) w l
    refine Safe.seq isRely_alone (attempt_unit k) fun _ w₁ l₁ h₁ => (attempt_units ks).mono ?_
    rintro (e | a) w₂ l₂ hq
    · exact hq
    · exact h₁.trans hq

theorem attempt_restarts (a : ApplyArgs) : Safe sem (pattern F) alone free
    (post (fun _ => Passed w l (attempted F (restartCalls a))) fun _ _ _ => False)
    (bestEffort (((a.shards.filter (· ∉ a.newShards)).forM fun shard =>
      (Prog.call (.restartShard shard) : P Unit)).bind fun _ =>
      .call .restartRelay)) w l := by
  refine Safe.handle isRely_alone (E := fun _ => Passed w l (attempted F (restartCalls a))) ?_
    fun e w' l' h =>
    Safe.retStable (stable_alone _) h
  refine Safe.seq isRely_alone
    ((attempt_loop (g := Call.restartShard) (fun _ => rfl) (fun _ => rfl)
    (fun _ _ _ => rfl) _).mono ?_)
    (K := fun _ w' l' => (∀ c ∈ (a.shards.filter (· ∉ a.newShards)).map Call.restartShard,
      F c = false) ∧ w' = w ∧
      Went w l ((a.shards.filter (· ∉ a.newShards)).map Call.restartShard) w' l') ?_
  · rintro (e | x) w₁ l₁ hq
    · obtain ⟨hF, rfl, hwent⟩ := hq
      exact ⟨rfl, by rw [restartCalls, attempted_stops hF]; exact hwent⟩
    · exact hq
  · rintro _ _ l₁ ⟨hF, rfl, hwent⟩
    refine (attempt_step id rfl rfl (fun _ _ => rfl) fun _ => rfl).mono ?_
    rintro (e | x) w₁ l₂ hq
    · obtain ⟨hF', hw, hw'⟩ := hq
      refine ⟨by rw [hw.elim id id], ?_⟩
      rw [restartCalls, attempted_append hF]
      simpa [attempted] using hwent.trans hw'
    · obtain ⟨hF', rfl, hw'⟩ := hq
      refine ⟨rfl, ?_⟩
      rw [restartCalls, attempted_append hF]
      simpa [attempted] using hwent.trans hw'

end Steps

/-! ## The two transactions -/

/-- The calls made since `l`, none of them a step. -/
def OnlyOther (l l' : Own) : Prop :=
  ∃ cs : List Call, l'.trace.map (·.call) = l.trace.map (·.call) ++ cs ∧ ∀ c ∈ cs, c.isStep = false

theorem OnlyOther.refl (l : Own) : OnlyOther l l := ⟨[], by simp, by simp⟩

theorem OnlyOther.note {l m : Own} (h : OnlyOther l m) {E : List Entry}
    (hes : ∀ e ∈ E, e.call.isStep = false) : OnlyOther l (m.note E) := by
  obtain ⟨cs, hcs, hother⟩ := h
  refine ⟨cs ++ E.map (·.call), by simp [Own.note, hcs], fun c hc => ?_⟩
  rcases List.mem_append.1 hc with hc | hc
  · exact hother c hc
  · obtain ⟨e, he, rfl⟩ := List.mem_map.1 hc
    exact hes e he

section Transactions
variable {F : Call → Bool} {w : World} {l : Own}

/-- In the own transaction, with nothing written. -/
structure Reading (w : World) (l : Own) (w' : World) (l' : Own) : Prop where
  db : w'.db = w.db
  files : w'.files = w.files
  own : ∃ tx, ownTx (w', l') = some tx ∧ tx.copy = w.db
  calls : OnlyOther l l'

/-- After it. -/
structure HasRead (w : World) (l : Own) (w' : World) (l' : Own) : Prop where
  db : w'.db = w.db
  files : w'.files = w.files
  calls : OnlyOther l l'

theorem only_sync : syncFirewall.Only fun a => a.isSync = true := by
  unfold syncFirewall
  refine Prog.Only.bind (Prog.Only.call rfl) fun ports =>
    Prog.Only.bind (Prog.Only.call rfl) fun blocked => ?_
  refine Prog.Only.bind (Prog.Only.call rfl) fun shards => ?_
  split
  · trivial
  split
  · trivial
  exact Prog.Only.bind (Prog.Only.call rfl) fun _ => Prog.Only.call rfl

theorem Reading.sync {ok : Allow Action Choice State} {β : Type} {a : Action β} {w₁ w₂ : World}
    {l₁ l₂ : Own} {r : Except Err β} (ha : a.isSync = true) (h : Reading w l w₁ l₁)
    (hn : sem.Next ok (w₁, l₁) a r (w₂, l₂)) : Reading w l w₂ l₂ := by
  obtain ⟨tx, htx, hcopy⟩ := h.own
  cases a with
  | ctlSelect f =>
    rcases next_read (b := f w₁.db) (f := .system) rfl (fun _ => rfl) hn with ⟨-, rfl, rfl⟩ |
        ⟨msg, done, -, -, rfl, rfl⟩
    · exact ⟨h.db, h.files, ⟨tx, htx, hcopy⟩, h.calls.note (by simp [Call.isStep])⟩
    · exact ⟨h.db, h.files, ⟨tx, htx, hcopy⟩, h.calls.note (by simp [Call.isStep])⟩
  | ctlCurrent =>
    rcases next_read (b := w₁.blocked) (f := .system) rfl (fun _ => rfl) hn with ⟨-, rfl, rfl⟩ |
        ⟨msg, done, -, -, rfl, rfl⟩
    · exact ⟨h.db, h.files, ⟨tx, htx, hcopy⟩, h.calls.note (by simp [Call.isStep])⟩
    · exact ⟨h.db, h.files, ⟨tx, htx, hcopy⟩, h.calls.note (by simp [Call.isStep])⟩
  | ctlReplace ports blocked =>
    rcases next_ctlReplace hn with ⟨-, -, rfl, rfl⟩ | ⟨msg, done, -, -, rfl, rfl⟩
    · exact ⟨h.db, h.files, ⟨tx, htx, hcopy⟩,
        OnlyOther.note (m := l₁.replaced) h.calls (by simp [Call.isStep])⟩
    · cases done
      · exact ⟨h.db, h.files, ⟨tx, htx, hcopy⟩, h.calls.note (by simp [Call.isStep])⟩
      · exact ⟨h.db, h.files, ⟨tx, htx, hcopy⟩, h.calls.note (by simp [Call.isStep])⟩
  | _ => simp [Action.isSync] at ha

theorem attempt_sync (hl : l.inTx = false) :
    Safe sem (pattern F) alone free (post (fun _ => HasRead w l) fun _ _ _ => False)
      (bestEffort poolSync) w l := by
  refine Safe.handle isRely_alone (E := fun _ => HasRead w l) ?_ fun e w' l' h =>
    Safe.retStable (stable_alone _) h
  unfold poolSync
  refine safe_transaction (B := fun _ => Reading w l) isRely_alone (fun _ _ => ⟨trivial, trivial⟩)
    (stable_alone _) (stable_alone _) hl (fun w₁ h₁ => ⟨trivial, fun msg done _ => ?_⟩) ?_ ?_ ?_
  · rw [← show w = w₁ from h₁]
    exact ⟨rfl, rfl, (OnlyOther.refl l).note (by simp [Call.isStep])⟩
  · rintro _ rfl -
    have hkeep : ∀ l₁ w₁ w₂, alone l₁ w₁ w₂ → Reading w l w₁ l₁ → Reading w l w₂ l₁ := by
      rintro l₁ w₁ _ rfl h
      exact h
    refine Safe.only hkeep (fun a w l ha h => ⟨trivial, fun r w' l' hn => Reading.sync ha h hn⟩)
      only_sync ⟨rfl, rfl, ⟨_, rfl, rfl⟩, ?_⟩
    exact OnlyOther.note (l := l) (m := { l with inTx := true }) (OnlyOther.refl l)
      (by simp [Call.isStep])
  · rintro _ w₁ l₁ h
    obtain ⟨tx, htx, hcopy⟩ := h.own
    refine ⟨tx, htx, trivial, ⟨hcopy, h.files, ?_⟩, fun msg left _ => ⟨h.db, h.files, ?_⟩, ?_⟩
    · exact OnlyOther.note (m := { l₁ with inTx := false }) h.calls (by simp [Call.isStep])
    · exact OnlyOther.note (m := l₁.rolledBack tx) h.calls (by simp [Call.isStep])
    · rintro msg left _ - rfl
      refine ⟨tx, htx, h.db, h.files, ?_⟩
      have hnoted := h.calls.note (E := [⟨.commit, .raised⟩]) (by simp [Call.isStep])
      exact OnlyOther.note (m := (l₁.note [⟨.commit, .raised⟩]).rolledBack tx) hnoted
        (by simp [Call.isStep])
  · intro e w₁ l₁ h
    obtain ⟨tx, htx, -⟩ := h.own
    unfold RollsBack
    rw [htx]
    exact ⟨h.db, h.files, OnlyOther.note (m := l₁.rolledBack tx) h.calls (by simp [Call.isStep])⟩

/-- The calls of the transaction that discards the staged rows. -/
def abortCalls : List Call := [.begin_, .statements, .commit]

/-- Nothing is staged any more. -/
structure Discards (w : World) (l : Own) (w' : World) (l' : Own) : Prop where
  db : w'.db = aborted w.db
  files : w'.files = w.files
  inTx : l'.inTx = false
  calls : l'.trace.map (·.call) = l.trace.map (·.call) ++ abortCalls

theorem attempt_abort (hinv : Inv w.db) (hl : l.inTx = false) : Safe sem (pattern F) alone free
    (post (fun _ => Discards w l) fun _ _ _ => False) (transaction (sql abortStaged)) w l := by
  have hfails : ∀ {β : Type} {a : Action β} {c : Choice} {s : State} {call : Call},
      a.call? = some call → call.isDatabase = true →
      c.result = .raised → ¬ pattern F c a s := fun hcall hdb hc h => (h _ hcall).2 hdb hc
  refine safe_transaction (B := post (fun _ w₁ l₁ => w₁.db = w.db ∧ w₁.files = w.files ∧
      (∃ tx, ownTx (w₁, l₁) = some tx ∧ tx.copy = aborted w.db) ∧
      l₁.trace.map (·.call) = l.trace.map (·.call) ++ [.begin_, .statements]) fun _ _ _ => False)
    isRely_alone (fun _ _ => ⟨trivial, trivial⟩) (stable_alone _) (stable_alone _) hl
    (fun w₁ _ => ⟨trivial, fun msg done hok => (hfails rfl rfl rfl hok).elim⟩) ?_ ?_ fun _ _ _ h =>
      h.elim
  · rintro _ rfl -
    refine Safe.callStable (stable_alone _) ?_
    rintro _ rfl
    refine ⟨trivial, fun r w₂ l₂ hn => ?_⟩
    rcases next_sql rfl hn with ⟨inp, db', -, hhex, rfl, rfl, ⟨x, hm, rfl⟩ | ⟨e, hm, rfl⟩⟩ |
        ⟨msg, gone, left, hok, -⟩
    · have hdb := (yields_abortStaged hinv (r := .ok x) ⟨inp, by simpa using hhex, hm⟩).2
      exact ⟨rfl, rfl, ⟨_, rfl, hdb⟩, by simp [Own.note]⟩
    · exact absurd (yields_abortStaged hinv (r := .error e) ⟨inp, by simpa using hhex, hm⟩).1
        (by simp)
    · exact (hfails rfl rfl rfl hok).elim
  · rintro x w₁ l₁ ⟨hdb, hfiles, ⟨tx, htx, hcopy⟩, hcalls⟩
    refine ⟨tx, htx, trivial, ⟨hcopy, hfiles, rfl, ?_⟩, fun msg left hok =>
      (hfails rfl rfl rfl hok).elim, fun msg left _ hok => (hfails rfl rfl rfl hok).elim⟩
    simp [Own.note, hcalls, abortCalls]

end Transactions

/-! ## The handler -/

section Handler
variable {F : Call → Bool} {a : ApplyArgs} {previous : List (Path × Option Content)} {w w' : World}
  {l l' : Own}

/-- The calls of the handler, but for those of the sync. -/
def handlerCalls (F : Call → Bool) (a : ApplyArgs) (previous : List (Path × Option Content)) :
    List Call :=
  attempted F (previous.map restoreCall) ++
    (a.newShards.flatMap fun k => attempted F (unitCalls k)) ++ abortCalls ++
    attempted F (restartCalls a)

/-- How the handler ends. -/
structure Handled (F : Call → Bool) (a : ApplyArgs) (previous : List (Path × Option Content))
    (w : World) (l : Own) (e : Err) (w' : World) (l' : Own) : Prop where
  raises : e.isPoolError = true
  db : w'.db = aborted w.db
  files : Restored F previous w w'
  calls : ∃ sync : List Call, l'.trace.map (·.call) = l.trace.map (·.call) ++
    (handlerCalls F a previous ++ sync) ∧ ∀ c ∈ sync, c.isStep = false

theorem attempt_rollBack (error : Err) (hinv : Inv w.db) (hl : l.inTx = false)
    (hpaths : (previous.map (·.1)).Nodup) :
    Safe sem (pattern F) alone free (post (fun _ _ _ => False) fun e => Handled F a previous w l e)
      (rollBack a previous error) w l := by
  unfold rollBack
  simp only [Prog.bind_eq]
  have hfalse : ∀ {γ : Type} {K : γ → World → Own → Prop} {p : P γ} {w : World} {l : Own},
      Safe sem (pattern F) alone free (post K fun _ _ _ => False) p w l →
      ∀ (E : Err → World → Own → Prop), Safe sem (pattern F) alone free (post K E) p w l := by
    intro γ K p w l h E
    refine h.mono ?_
    rintro (e | x) w l hq
    · exact hq.elim
    · exact hq
  -- the files
  refine Safe.seq isRely_alone (K := fun _ => AfterRestore F previous w l)
    (Safe.handle isRely_alone (E := fun _ => AfterRestore F previous w l)
      (attempt_restore previous hpaths) fun _ _ _ h =>
      Safe.retStable (stable_alone _) h) ?_
  rintro _ w₁ l₁ ⟨hfiles, h₁⟩
  -- the new units
  refine Safe.seq isRely_alone (hfalse (attempt_units a.newShards) _) ?_
  rintro _ w₂ l₂ ⟨hfiles₂, h₂⟩
  have h₂ := h₁.trans h₂
  -- the staged rows
  refine Safe.seq isRely_alone
    (hfalse (attempt_abort (by rw [h₂.db]; exact hinv) (h₂.inTx.trans hl)) _) ?_
  rintro _ w₃ l₃ h₃
  -- the old configuration
  refine Safe.seq isRely_alone (hfalse (attempt_restarts a) _) ?_
  rintro _ w₄ l₄ ⟨hfiles₄, h₄⟩
  have hread : Safe sem (pattern F) alone free (post (fun _ => HasRead w₄ l₄) fun _ _ _ => False)
      (Prog.runIf (a.newShards ≠ []) (bestEffort poolSync)) w₄ l₄ := by
    unfold Prog.runIf
    split
    · exact attempt_sync (h₄.inTx.trans h₃.inTx)
    · exact Safe.retStable (stable_alone _) ⟨rfl, rfl, .refl l₄⟩
  refine Safe.seq isRely_alone (hfalse hread _) ?_
  rintro _ w₅ l₅ h₅
  have hhandled : ∀ e : Err, e.isPoolError = true → Handled F a previous w l e w₅ l₅ := by
    intro e he
    obtain ⟨sync, hsync, hother⟩ := h₅.calls
    have hsame : w₅.files = w₁.files := by rw [h₅.files, hfiles₄, h₃.files, hfiles₂]
    refine ⟨he, by rw [h₅.db, h₄.db, h₃.db, h₂.db], ⟨?_, ?_, ?_⟩, sync, ?_, hother⟩
    · intro pre x suf heq hpre hx
      rw [hsame]
      exact hfiles.done pre x suf heq hpre hx
    · intro pre x suf heq hpre
      rw [hsame]
      exact hfiles.skipped pre x suf heq hpre
    · intro path hpath
      rw [hsame]
      exact hfiles.others path hpath
    · rw [hsync, h₄.calls, h₃.calls, h₂.calls]
      simp [handlerCalls, List.append_assoc]
  split
  · rename_i hpool
    exact Safe.raiseStable (stable_alone _) (hhandled _ hpool)
  · exact Safe.raiseStable (stable_alone _) (hhandled _ rfl)

/-- The call has been made since `l`. -/
def Made (l l' : Own) (c : Call) : Prop :=
  ∃ cs, l'.trace.map (·.call) = l.trace.map (·.call) ++ cs ∧ c ∈ cs

/-- One failing step has not skipped another. -/
structure AttemptsAll (F : Call → Bool) (a : ApplyArgs) (previous : List (Path × Option Content))
    (w : World) (l : Own) (out : Except Err Unit) (w' : World) (l' : Own) : Prop where
  files : ∀ x ∈ previous, F (restoreCall x) = false → w'.files x.1 = x.2
  units : ∀ k ∈ a.newShards, Made l l' (.stopShard k) ∧ Made l l' (.disableShard k)
  restarts : ∀ k ∈ a.shards, k ∉ a.newShards → Made l l' (.restartShard k)
  relay : Made l l' .restartRelay
  aborted : w'.db = aborted w.db
  raises : ∃ e, out = .error e ∧ e.isPoolError = true

/-- No failing call has a step after it in its `try`, but for files that need none. -/
structure NoneSkipped (F : Call → Bool) (a : ApplyArgs) (previous : List (Path × Option Content))
    (w : World) : Prop where
  restores : ∀ pre x suf, previous = pre ++ x :: suf → (∃ y ∈ pre, F (restoreCall y) = true) →
    F (restoreCall x) = false → w.files x.1 = x.2
  stops : ∀ k ∈ a.newShards, F (.stopShard k) = false
  restarts : ∀ k ∈ a.shards, k ∉ a.newShards → F (.restartShard k) = false

theorem Restored.files_iff (h : Restored F previous w w') :
    (∀ x ∈ previous, F (restoreCall x) = false → w'.files x.1 = x.2) ↔
    ∀ pre x suf, previous = pre ++ x :: suf → (∃ y ∈ pre, F (restoreCall y) = true) →
      F (restoreCall x) = false →
      w.files x.1 = x.2 := by
  constructor
  · intro hall pre x suf heq hpre hx
    rw [← h.skipped pre x suf heq hpre]
    exact hall x (by simp [heq]) hx
  · intro hneed x hx hF
    obtain ⟨pre, suf, heq⟩ := List.append_of_mem hx
    by_cases hpre : ∃ y ∈ pre, F (restoreCall y) = true
    · rw [h.skipped pre x suf heq hpre]
      exact hneed pre x suf heq hpre hF
    · push Not at hpre
      exact h.done pre x suf heq (fun y hy => eq_false_of_ne_true (hpre y hy)) hF

theorem Handled.made_iff {e : Err} (h : Handled F a previous w l e w' l') {c : Call}
    (hc : c.isStep = true) : Made l l' c ↔ c ∈ handlerCalls F a previous := by
  obtain ⟨sync, hcalls, hsync⟩ := h.calls
  constructor
  · rintro ⟨cs, hcs, hm⟩
    rw [List.append_cancel_left (hcs.symm.trans hcalls)] at hm
    rcases List.mem_append.1 hm with hm | hm
    · exact hm
    · rw [hsync c hm] at hc
      simp at hc
  · exact fun hm => ⟨_, hcalls, List.mem_append_left _ hm⟩

/-- The groups of the handler are told apart by their calls. -/
theorem mem_handlerCalls {c : Call} :
    c ∈ handlerCalls F a previous ↔ c ∈ attempted F (previous.map restoreCall) ∨
    (∃ k ∈ a.newShards, c ∈ attempted F (unitCalls k)) ∨ c ∈ abortCalls ∨
      c ∈ attempted F (restartCalls a) := by
  simp only [handlerCalls, List.mem_append, List.mem_flatMap, or_assoc]

theorem attempted_subset {c : Call} {cs : List Call} (h : c ∈ attempted F cs) : c ∈ cs := by
  obtain ⟨pre, suf, rfl, -⟩ := mem_attempted.1 h
  simp

theorem not_restoreCall {c : Call}
    (hc : ∀ path data, c ≠ .writeFile path data ∧ c ≠ .removeFile path) :
    c ∉ attempted F (previous.map restoreCall) := by
  intro h
  obtain ⟨⟨path, data⟩, -, rfl⟩ := List.mem_map.1 (attempted_subset h)
  cases data with
  | none => exact (hc path (.text "")).2 rfl
  | some data => exact (hc path data).1 rfl

theorem stop_mem {k : Int} : Call.stopShard k ∈ handlerCalls F a previous ↔ k ∈ a.newShards := by
  rw [mem_handlerCalls]
  constructor
  · rintro (h | ⟨j, hj, h⟩ | h | h)
    · exact absurd h (not_restoreCall fun _ _ => by simp)
    · have := attempted_subset h
      simp only [unitCalls, List.mem_cons, Call.stopShard.injEq, reduceCtorEq, List.not_mem_nil,
        or_false] at this
      rwa [this]
    · simp [abortCalls] at h
    · simpa [restartCalls] using attempted_subset h
  · intro hk
    exact .inr (.inl ⟨k, hk, mem_attempted.2 ⟨[], [.disableShard k], rfl, by simp⟩⟩)

theorem disable_mem {k : Int} :
    Call.disableShard k ∈ handlerCalls F a previous ↔ k ∈ a.newShards ∧
      F (.stopShard k) = false := by
  have hlast : ∀ j, Call.disableShard j ∈ attempted F (unitCalls j) ↔ F (.stopShard j) = false := by
    intro j
    rw [unitCalls, show [Call.stopShard j, .disableShard j] = [.stopShard j] ++ [.disableShard j]
      from rfl, last_attempted (by simp)]
    simp
  rw [mem_handlerCalls]
  constructor
  · rintro (h | ⟨j, hj, h⟩ | h | h)
    · exact absurd h (not_restoreCall fun _ _ => by simp)
    · have hjk : k = j := by simpa [unitCalls] using attempted_subset h
      rw [hjk] at h ⊢
      exact ⟨hj, (hlast j).1 h⟩
    · simp [abortCalls] at h
    · simpa [restartCalls] using attempted_subset h
  · rintro ⟨hk, hF⟩
    exact .inr (.inl ⟨k, hk, (hlast k).2 hF⟩)

theorem restart_mem {c : Call} (hc : c ∈ restartCalls a) :
    c ∈ handlerCalls F a previous ↔ c ∈ attempted F (restartCalls a) := by
  rw [mem_handlerCalls]
  constructor
  · rintro (h | ⟨j, -, h⟩ | h | h)
    · refine absurd h (not_restoreCall fun path data => ?_)
      rcases List.mem_append.1 hc with hc | hc
      · obtain ⟨k, -, rfl⟩ := List.mem_map.1 hc
        simp
      · rw [List.mem_singleton.1 hc]
        simp
    · have hunit := attempted_subset h
      rcases List.mem_append.1 hc with hc | hc
      · obtain ⟨k, -, rfl⟩ := List.mem_map.1 hc
        simp [unitCalls] at hunit
      · rw [List.mem_singleton.1 hc] at hunit
        simp [unitCalls] at hunit
    · rcases List.mem_append.1 hc with hc | hc
      · obtain ⟨k, -, rfl⟩ := List.mem_map.1 hc
        simp [abortCalls] at h
      · rw [List.mem_singleton.1 hc] at h
        simp [abortCalls] at h
    · exact h
  · exact fun h => .inr (.inr (.inr h))

theorem relay_mem :
    Call.restartRelay ∈ handlerCalls F a previous ↔ ∀ k ∈ a.shards, k ∉ a.newShards →
      F (.restartShard k) = false := by
  rw [restart_mem (by simp [restartCalls]), restartCalls, last_attempted (by simp)]
  constructor
  · exact fun h k hk hnew => h _ (List.mem_map_of_mem (List.mem_filter.2 ⟨hk, by simpa using hnew⟩))
  · intro h c hc
    obtain ⟨k, hk, rfl⟩ := List.mem_map.1 hc
    obtain ⟨hk, hnew⟩ := List.mem_filter.1 hk
    exact h k hk (by simpa using hnew)

/-- One failing step never skips another exactly if no step stands behind a failing one. -/
theorem rollBack_attempts_iff {error : Err} {out : Except Err Unit} (hinv : Inv w.db)
    (hl : l.inTx = false) (hpaths : (previous.map (·.1)).Nodup)
    (hrun : sem.Runs (pattern F) (rollBack a previous error) (w, l) out (w', l')) :
    AttemptsAll F a previous w l out w' l' ↔ NoneSkipped F a previous w := by
  have hpost := Safe.runs isRely_alone (attempt_rollBack error hinv hl hpaths) hrun
  cases out with
  | ok _ => exact hpost.elim
  | error e =>
    have h : Handled F a previous w l e w' l' := hpost
    constructor
    · intro hall
      have hrelay := relay_mem.1 ((h.made_iff rfl).1 hall.relay)
      exact ⟨h.files.files_iff.1 hall.files, fun k hk =>
        (disable_mem.1 ((h.made_iff rfl).1 (hall.units k hk).2)).2, hrelay⟩
    · intro hnone
      refine ⟨h.files.files_iff.2 hnone.restores, fun k hk =>
        ⟨(h.made_iff rfl).2 (stop_mem.2 hk), ?_⟩, fun k hk hnew => ?_,
        (h.made_iff rfl).2 (relay_mem.2 hnone.restarts), h.db, e, rfl, h.raises⟩
      · exact (h.made_iff rfl).2 (disable_mem.2 ⟨hk, hnone.stops k hk⟩)
      · have hmem : Call.restartShard k ∈ (a.shards.filter (· ∉ a.newShards)).map
            Call.restartShard :=
          List.mem_map_of_mem (List.mem_filter.2 ⟨hk, by simpa using hnew⟩)
        refine (h.made_iff rfl).2 ((restart_mem (List.mem_append_left _ hmem)).2 ?_)
        rw [restartCalls, attempted_append]
        · exact List.mem_append_left _ hmem
        · intro c hc
          obtain ⟨j, hj, rfl⟩ := List.mem_map.1 hc
          obtain ⟨hj, hjn⟩ := List.mem_filter.1 hj
          exact hnone.restarts j hj (by simpa using hjn)

/-- `pattern`, decided. -/
def follows (F : Call → Bool) (c : Choice) {β : Type} (a : Action β) (_ : State) : Bool :=
  match a.call? with
  | none => true
  | some call =>
    (!call.isStep || decide (c.result = .raised) == F call) &&
      (!call.isDatabase || decide (c.result ≠ .raised))

theorem pattern_of_follows {c : Choice} {β : Type} {a : Action β} {s : State}
    (h : follows F c a s = true) : pattern F c a s := by
  intro call hcall
  simp only [follows, hcall, Bool.and_eq_true, Bool.or_eq_true, Bool.not_eq_true', beq_iff_eq,
    decide_eq_true_eq] at h
  refine ⟨fun hstep => ?_, fun hdb => ?_⟩
  · rcases h.1 with h | h
    · simp [hstep] at h
    · rw [← h, decide_eq_true_eq]
  · rcases h.2 with h | h
    · simp [hdb] at h
    · exact h

end Handler

/-! ## A new unit that does not start -/

section Unit
variable {F : Call → Bool}

/-- One old shard and one new one. -/
def oldAndNew : ApplyArgs := ⟨sampleConfig, sampleSizing, [1], [0, 1]⟩

/-- Shard 1 is staged next to the active shard 0, and writing the first candidate fails. -/
def stageNext : List Choice :=
  succeed 3 ++ [.inputs ⟨[0], (List.range' 16 16).map sampleToken⟩] ++ succeed 4 ++
    [.fail "disk full" false] ++ succeed 1

/-- `apply` of both shards, up to the restart of the new one. -/
def unitFails : List Choice :=
  succeed 5 ++ [.answer true ""] ++ succeed 20 ++ [.fail "unit failed" false]

/-- What `apply` has read of its targets. -/
def previousFiles (w : World) : List (Path × Option Content) :=
  [Path.profiles, .relayConfig, .shardEnv 0, .shardEnv 1].map fun path => (path, w.files path)

/-- The world in which `apply` starts, and the state in which its handler does. -/
def failedApply : Option (World × State) :=
  (sem.play anything stageNext samplePool.program (World.sample, Own.idle 0)).bind fun x =>
    if x.1.outcome? = some (.error (.system "disk full")) then
      (sem.play anything unitFails (apply sampleConfig sampleSizing [0] [1])
        (x.2.1, Own.idle 0)).map fun y => (x.2.1, y.2)
    else none

/-- An old shard is active and a new one is staged, with files from before; `apply` has written all
of its targets. -/
structure HalfApplied (v w : World) (l : Own) : Prop where
  inv : Inv v.db
  shards : v.db.shards.map (fun sh => (sh.id, sh.active)) = [(0, 1), (1, 0)]
  before : (previousFiles v).map (·.2.isSome) = [true, true, true, false]
  run : ∃ q, sem.Steps (fun c {_} a s => anything c a s = true)
    (apply sampleConfig sampleSizing [0] [1]) (v, Own.idle 0) q (w, l)
  db : w.db = v.db
  written : ∀ x ∈ previousFiles v, x.1 ≠ .shardEnv 0 → w.files x.1 ≠ x.2
  inTx : l.inTx = false

theorem HalfApplied.inv_now {v w : World} {l : Own} (h : HalfApplied v w l) : Inv w.db := by
  rw [h.db]
  exact h.inv

/-- `HalfApplied`, but for the steps, decided. -/
def halfApplied (v w : World) (l : Own) : Bool :=
  decide (v.db.shards.map (fun sh => (sh.id, sh.active)) = [(0, 1), (1, 0)]) &&
    decide ((previousFiles v).map (·.2.isSome) = [true, true, true, false]) &&
    decide (w.db = v.db) &&
    decide (∀ x ∈ previousFiles v, x.1 ≠ .shardEnv 0 → w.files x.1 ≠ x.2) && !l.inTx

/-- The steps of the handler up to and with the one that raises. -/
def handlerRun (F : Call → Bool) (choices : List Choice) (x : World × State) :
    Option (Except Err Unit) :=
  (sem.play (follows F) choices (rollBack oldAndNew (previousFiles x.1) (.system "unit failed"))
    x.2).bind fun y =>
    y.1.outcome?

def notApplied : Err := .pool "Не удалось применить конфигурацию: unit failed"

/-- The relay does not start again; then the same with `stop` of the new shard. -/
theorem handlers_play : (failedApply.map fun x => (halfApplied x.1 x.2.1 x.2.2,
    handlerRun (fun c => decide (c = .restartRelay))
      (succeed 8 ++ [.inputs ⟨[], []⟩] ++ succeed 2 ++ [.fail "timeout" false] ++ succeed 8) x,
    handlerRun (fun c => decide (c = .stopShard 1))
      (succeed 4 ++ [.fail "timeout" false] ++ succeed 2 ++ [.inputs ⟨[], []⟩] ++ succeed 11) x)) =
    some (true, some (.error notApplied), some (.error notApplied)) := by
  decide +kernel

theorem runs_of_handlerRun {choices : List Choice} {x : World × State} {out : Except Err Unit}
    (h : handlerRun F choices x = some out) : ∃ w' l',
    sem.Runs (pattern F) (rollBack oldAndNew (previousFiles x.1) (.system "unit failed")) x.2 out
      (w', l') := by
  obtain ⟨⟨p, w', l'⟩, hplay, hout⟩ := Option.bind_eq_some_iff.1 h
  obtain rfl : p = .ended _ := Prog.outcome?_eq_some.1 hout
  exact ⟨w', l', Sem.Steps.mono (fun _ _ _ _ => pattern_of_follows) (Sem.Steps.of_play hplay)⟩

theorem halfApplied_of_failedApply {v w : World} {l : Own} (hfailed : failedApply = some (v, w, l))
    (hhalf : halfApplied v w l = true) : HalfApplied v w l := by
  obtain ⟨⟨q, u⟩, hfirst, hsecond⟩ := Option.bind_eq_some_iff.1 hfailed
  split at hsecond
  · rename_i hended
    obtain ⟨⟨q', s⟩, hsecond, heq⟩ := Option.map_eq_some_iff.1 hsecond
    obtain ⟨rfl, rfl⟩ := Prod.mk.inj heq
    obtain rfl : q = .ended _ := Prog.outcome?_eq_some.1 hended
    have hinv := (resting_runs (sequence_sample.resting resting_initial)
        (Sem.Steps.of_play hfirst)).1.world.1
    simp only [halfApplied, Bool.and_eq_true, decide_eq_true_eq, Bool.not_eq_true'] at hhalf
    obtain ⟨⟨⟨⟨hshards, hbefore⟩, hdb⟩, hwritten⟩, hinTx⟩ := hhalf
    exact ⟨hinv, hshards, hbefore, ⟨q', Sem.Steps.of_play hsecond⟩, hdb, hwritten, hinTx⟩
  · simp at hsecond

/-- Both runs of the handler start in the same state. -/
theorem exists_halfApplied : ∃ v w l, HalfApplied v w l ∧
    (∃ w' l', sem.Runs (pattern fun c => decide (c = .restartRelay))
      (rollBack oldAndNew (previousFiles v) (.system "unit failed")) (w, l)
        (.error notApplied) (w', l')) ∧
    ∃ w' l', sem.Runs (pattern fun c => decide (c = .stopShard 1))
      (rollBack oldAndNew (previousFiles v) (.system "unit failed")) (w, l) (.error notApplied)
        (w', l') := by
  obtain ⟨⟨v, w, l⟩, hfailed, h⟩ := Option.map_eq_some_iff.1 handlers_play
  obtain ⟨hhalf, h⟩ := Prod.mk.inj h
  obtain ⟨hrelay, hstop⟩ := Prod.mk.inj h
  exact ⟨v, w, l, halfApplied_of_failedApply hfailed hhalf, runs_of_handlerRun hrelay,
    runs_of_handlerRun hstop⟩

/-- The new unit does not start, and neither does the relay: the files of the relay and of shard 0
are written again, that of shard 1 is removed, and everything behind is attempted. -/
theorem rollBack_attempts_iff_relay : ∃ v w l w' l' e, HalfApplied v w l ∧ e.isPoolError = true ∧
    AttemptsAll (· = .restartRelay) oldAndNew (previousFiles v) w l (.error e) w' l' := by
  obtain ⟨v, w, l, hhalf, ⟨w', l', hrun⟩, -⟩ := exists_halfApplied
  refine ⟨v, w, l, w', l', notApplied, hhalf, rfl,
    (rollBack_attempts_iff hhalf.inv_now hhalf.inTx (by simp [previousFiles]) hrun).2
    ⟨?_, by decide, by decide⟩⟩
  rintro pre x suf - ⟨⟨path, data⟩, -, hF⟩
  cases data <;> simp [restoreCall] at hF

/-- If `stop` of the new shard fails, its unit stays enabled. -/
theorem rollBack_skips_disable : ∃ v w l out w' l', HalfApplied v w l ∧
    sem.Runs (pattern (· = .stopShard 1))
      (rollBack oldAndNew (previousFiles v) (.system "unit failed")) (w, l) out (w', l') ∧
    ¬ AttemptsAll (· = .stopShard 1) oldAndNew (previousFiles v) w l out w' l' := by
  obtain ⟨v, w, l, hhalf, -, w', l', hrun⟩ := exists_halfApplied
  refine ⟨v, w, l, .error notApplied, w', l', hhalf, hrun, fun hall => ?_⟩
  have h : Handled (· = .stopShard 1) oldAndNew (previousFiles v) w l notApplied w' l' :=
    Safe.runs isRely_alone
      (attempt_rollBack (.system "unit failed") hhalf.inv_now hhalf.inTx (by simp [previousFiles]))
      hrun
  have hstop := (disable_mem.1 ((h.made_iff rfl).1 (hall.units 1 (by decide)).2)).2
  simp at hstop

end Unit

end WebProxyPanel
