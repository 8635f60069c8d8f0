import WebProxyPanel.Global
import WebProxyPanel.Limits
/-!
# Requests that are refused

`add_device` makes its firewall call after all its checks, so an exception of its own comes before
any call that has an effect outside the transaction. `Silent` says so of the record of a process,
and `refused_unchanged` of the steps of a request among those of other processes.
-/

namespace WebProxyPanel
open Effects Users

/-- An exception of the program itself, not of SQLite or the system. -/
def Err.refuses : Err → Bool
  | .sqlite _ | .system _ => false
  | _ => true

/-- Calls that may change the firewall or the committed database. -/
def Call.loud : Call → Bool
  | .fwCall _ | .ctlReplace | .commit => true
  | _ => false

/-- Nothing loud since the record was `t`. -/
def Silent (t : List Entry) (l : Own) : Prop :=
  ∃ es, l.trace = t ++ es ∧ ∀ e ∈ es, e.call.loud = false

/-! ## Single actions -/

section Actions
variable {ok : Allow Action Choice State} {w w' : World} {l l' : Own} {β : Type} {a : Action β}
  {r : Except Err β}

theorem Silent.refl (l : Own) : Silent l.trace l := ⟨[], by simp, by simp⟩

theorem Silent.note {t : List Entry} (h : Silent t l) {es : List Entry}
    (hes : ∀ e ∈ es, e.call.loud = false) : Silent t (l.note es) := by
  obtain ⟨es₀, htrace, hquiet⟩ := h
  refine ⟨es₀ ++ es, by simp [htrace], fun e he => ?_⟩
  rcases List.mem_append.1 he with he | he
  · exact hquiet e he
  · exact hes e he

theorem Silent.rolledBack {t : List Entry} (h : Silent t l) (tx : Tx) :
    Silent t (l.rolledBack tx) := h

/-- Only loud calls change the firewall or the committed database. -/
theorem unchanged_of_entries {c : Choice} (h : respond c a (w, l) = some (r, (w', l')))
    (hquiet : ∀ e ∈ entries c a, e.call.loud = false) : w'.db = w.db ∧ w'.blocked = w.blocked := by
  cases a with
  | fwCall call => simp [entries, Action.call?, Call.loud] at hquiet
  | commit => simp [entries, Action.call?, Call.loud] at hquiet
  | ctlReplace ports blocked => simp [entries, Action.call?, Call.loud] at hquiet
  | _ =>
    simp only [respond, plain, read, runSql] at h
    grind [World.rollback, World.begin_, World.setFile, World.setUnits, World.setLock]

theorem next_unchanged (hn : sem.Next ok (w, l) a r (w', l')) :
    ∃ es, l'.trace = l.trace ++ es ∧
      ((∀ e ∈ es, e.call.loud = false) → w'.db = w.db ∧ w'.blocked = w.blocked) := by
  obtain ⟨c, l₁, -, hr, rfl⟩ := next_respond hn
  exact ⟨entries c a, by rw [Own.note_trace, respond_trace hr], unchanged_of_entries hr⟩

end Actions

/-! ## `add_device` -/

section AddDevice
variable {ok : Allow Action Choice State} {w : World} {l : Own} {t : List Entry} {n : Nat}

/-- In the own transaction. -/
def OwnTx (w : World) (l : Own) : Prop := l.inTx = true ∧ ∃ tx, w.writer = some tx

/-- Where a body stands: nothing loud so far if it gives up by itself. -/
def Hushed (t : List Entry) (n : Nat) (e : Err) (w : World) (l : Own) : Prop :=
  (Silent t l ∧ l.firewallCalls = n) ∨ (e.refuses = false ∧ OwnTx w l)

theorem OwnTx.undisturbed {w' : World} (h : OwnTx w l) (hr : Undisturbed l w w') : OwnTx w' l :=
  ⟨h.1, by rw [(hr h.1).2]; exact h.2⟩

theorem stable_hushed {α : Type} :
    StableQ Undisturbed (post (fun _ : α => OwnTx) (Hushed t n)) := by
  refine StableQ.post (fun _ _ _ _ hr h => h.undisturbed hr) fun e w l w₁ hr h => ?_
  exact h.imp_right (And.imp_right fun h => h.undisturbed hr)

/-- The body of `add_device`. -/
theorem hushed_addDevice (userId : Int) (createdBy : DeviceBy) (text : String)
    (name : Option String) (h : OwnTx w l) (ht : Silent t l) (hn : l.firewallCalls = n) :
    Safe sem ok Undisturbed free (post (fun _ => OwnTx) (Hushed t n)) (do
      let (u, deviceId, port) ← sql (addDeviceRows userId createdBy text name)
      Prog.runIf (u.enabled ≠ 0) (unblock [port])
      pure deviceId) w l := by
  refine Safe.callThen isRely_undisturbed stable_hushed fun w₁ hr =>
    ⟨trivial, fun r w₂ l₂ hnext => ?_⟩
  obtain ⟨hin, tx, hw⟩ := h.undisturbed hr
  have htx : ownTx (w₁, l) = some tx := by simp [ownTx, hin, hw]
  have hnoted : ∀ res, Silent t (l.note [⟨.statements, res⟩]) :=
    fun res => ht.note (by simp [Call.loud])
  rcases next_sql htx hnext with ⟨inp, db', -, -, rfl, rfl, ⟨x, -, rfl⟩ | ⟨e, -, rfl⟩⟩ |
      ⟨msg, gone, left, -, rfl, ⟨-, rfl, rfl⟩ | ⟨-, rfl, rfl⟩⟩
  · have hopen : OwnTx { w₁ with writer := some (tx.ran db' inp.tokens) }
        (l.note [⟨.statements, .ok⟩]) := ⟨hin, _, rfl⟩
    generalize hw' : ({ w₁ with writer := some (tx.ran db' inp.tokens) } : World) = w' at hopen
    refine Safe.seq isRely_undisturbed (K := fun _ => OwnTx) ?_ fun _ w₃ l₃ h₃ =>
      Safe.retStable stable_hushed h₃
    unfold Prog.runIf
    split
    · refine Safe.callStable stable_hushed fun w₃ hr => ⟨trivial, fun r w₄ l₄ hnext => ?_⟩
      obtain ⟨hin, tx, hw⟩ := hopen.undisturbed hr
      rcases next_fwCall hnext with ⟨rfl, rfl, rfl⟩ | ⟨msg, done, -, rfl, rfl, rfl⟩
      · exact ⟨hin, by simp [hw]⟩
      · exact .inr ⟨rfl, hin, by simp [hw]⟩
    · exact Safe.retStable stable_hushed hopen
  · exact .inl ⟨hnoted _, hn⟩
  · exact .inl ⟨hnoted _, hn⟩
  · exact .inl ⟨hnoted _, hn⟩

/-- Nothing loud, if the program gives up by itself. -/
def Refusing (t : List Entry) {α : Type} (out : Except Err α) (_ : World) (l : Own) : Prop :=
  ∀ e, out = .error e → e.refuses = true → Silent t l

theorem stable_refusing {α : Type} :
    StableQ Undisturbed (Refusing t : Except Err α → World → Own → Prop) := fun _ _ _ _ _ h => h

/-- An exception of the transaction. -/
def GaveUp (t : List Entry) (n : Nat) (e : Err) (_ : World) (l : Own) : Prop :=
  e.refuses = true → Silent t l ∧ l.firewallCalls = n

theorem stable_gaveUp {α : Type} :
    StableQ Undisturbed (post (fun (_ : α) (_ : World) (_ : Own) => True) (GaveUp t n)) :=
  StableQ.post (fun _ _ _ _ _ h => h) fun _ _ _ _ _ h => h

theorem gaveUp_transaction {α : Type} {body : P α} (hl : l.inTx = false) (ht : Silent t l)
    (hn : l.firewallCalls = n)
    (hbody : ∀ w l, OwnTx w l → Silent t l → l.firewallCalls = n →
      Safe sem ok Undisturbed free (post (fun _ => OwnTx) (Hushed t n)) body w l) :
    Safe sem ok Undisturbed free (post (fun _ _ _ => True) (GaveUp t n))
      (transaction body) w l := by
  refine safe_transaction (B := post (fun _ => OwnTx) (Hushed t n)) isRely_undisturbed
    (fun _ _ => ⟨trivial, trivial⟩) stable_hushed stable_gaveUp hl ?_ ?_ ?_ ?_
  · exact fun w₁ _ => ⟨trivial, fun msg _ _ he => by simp [Err.refuses] at he⟩
  · intro w₁ _ _
    exact hbody _ _ ⟨rfl, _, rfl⟩ (ht.note (l := { l with inTx := true }) (by simp [Call.loud])) hn
  · rintro a w₁ l₁ ⟨hin, tx, hw⟩
    have htx : ownTx (w₁, l₁) = some tx := by simp [ownTx, hin, hw]
    refine ⟨tx, htx, trivial, trivial,
      fun msg _ _ he => by simp [Err.refuses] at he, fun msg left w₂ _ hr => ⟨tx, ?_, ?_⟩⟩
    · have hwriter : w₂.writer = w₁.writer := (hr hin).2
      simp [ownTx, hin, hwriter, hw]
    · exact fun he => by simp [Err.refuses] at he
  · rintro e w₁ l₁ h
    unfold RollsBack
    rcases h with ⟨hsilent, hcalls⟩ | ⟨he, hin, tx, hw⟩
    · split
      · exact fun _ => ⟨(hsilent.rolledBack _).note (by simp [Call.loud]), hcalls⟩
      · exact fun _ _ => ⟨hsilent.note (by simp [Call.loud]), hcalls⟩
    · have htx : ownTx (w₁, l₁) = some tx := by simp [ownTx, hin, hw]
      rw [htx]
      exact fun he' => by simp [he] at he'

theorem refusing_addDevice (userId : Int) (createdBy : String) (name : Option String)
    (hl : l.inTx = false) (ht : Silent t l) :
    Safe sem ok Undisturbed free (Refusing t) (Users.addDevice userId createdBy name) w l := by
  unfold Users.addDevice
  split
  · exact Safe.raiseStable stable_refusing fun _ _ _ => ht
  rename_i by_ _
  unfold change
  simp only [Prog.bind_eq]
  refine Safe.callThen isRely_undisturbed stable_refusing fun w₁ h₁ =>
    ⟨trivial, fun r w₂ l₂ hn => ?_⟩
  obtain ⟨rfl, rfl, rfl⟩ := next_inTransaction hn
  simp only [thenSafe, hl, Bool.false_eq_true, if_false]
  refine Safe.callThen isRely_undisturbed stable_refusing fun w₃ h₃ =>
    ⟨trivial, fun r w₄ l₄ hn => ?_⟩
  obtain ⟨rfl, rfl, rfl⟩ := next_firewallCalls hn
  simp only [thenSafe]
  generalize hcalls : l₄.firewallCalls = n
  refine Safe.handle isRely_undisturbed (E := GaveUp t n) ?_ fun e w₅ l₅ h₅ => ?_
  · refine (gaveUp_transaction hl ht hcalls fun w l hin ht hn =>
      hushed_addDevice userId by_ createdBy name hin ht hn).mono ?_
    rintro (e | a) w₅ l₅ h
    · exact h
    · exact fun e he => by simp at he
  · -- the handler: a sync only after firewall calls
    refine Safe.callThen isRely_undisturbed stable_refusing fun w₆ h₆ =>
      ⟨trivial, fun r w₇ l₇ hn => ?_⟩
    obtain ⟨rfl, rfl, rfl⟩ := next_firewallCalls hn
    simp only [thenSafe]
    by_cases he : e.refuses = true
    · obtain ⟨hsilent, hsame⟩ := h₅ he
      unfold Prog.runIf
      rw [if_neg (not_not.2 hsame)]
      exact Safe.raiseStable stable_refusing fun _ _ _ => hsilent
    · refine Safe.seq isRely_undisturbed (K := fun _ _ _ => True) ?_ fun _ _ _ _ =>
        Safe.raiseStable stable_refusing ?_
      · unfold Prog.runIf
        split
        · refine Safe.handle isRely_undisturbed (E := fun _ _ _ => True) ?_ fun e w l _ _ _ =>
            trivial
          exact Safe.any (fun _ _ _ _ => trivial) (by rintro (e | a) w l <;> trivial)
            syncFirewall _ _
        · exact fun _ _ => trivial
      · intro e' he' h
        obtain rfl := Except.error.inj he'
        exact absurd h he

end AddDevice

/-! ## Among other processes -/

section Together
variable {ι : Type} [DecidableEq ι] {ok : Allow Action Choice State} {T : Int → Prop}
  {mayStop : Prop}
variable {c₀ c c' : Servers ι} {i : ι} {ws : List (World × World)}

/-- `add_device` as a request. -/
def Request.addDevice (userId : Int) (createdBy : String) (name : Option String) : Request :=
  .user (.addDevice userId createdBy name) rfl

theorem refusing_request (userId : Int) (createdBy : String) (name : Option String) {w : World}
    {l : Own} (hl : l.inTx = false) :
    Safe sem ok Undisturbed free (Refusing l.trace)
      (Request.addDevice userId createdBy name).program w l := by
  have hsafe : Safe sem ok Undisturbed free (Refusing l.trace)
      (Users.addDevice userId createdBy name) w l :=
    refusing_addDevice userId createdBy name hl (Silent.refl l)
  refine Safe.seq isRely_undisturbed (K := fun _ _ _ => True) (hsafe.mono ?_) fun _ w₁ l₁ _ => ?_
  · rintro (e | a) w₁ l₁ h
    · intro e' he'
      obtain rfl := Except.error.inj he'
      exact h e rfl
    · trivial
  · exact Safe.retStable stable_refusing fun e he => by simp at he

/-- What is known of a request on its way. -/
structure Underway (ok : Allow Action Choice State) (t : List Entry) (i : ι) (r : Request)
    (ws : List (World × World)) (c : Servers ι) : Prop where
  order : InOrder ok Counted Request.program c
  program : ∃ p, c.running i = some (r, p) ∧
    Safe sem ok Undisturbed free (Refusing t) p c.shared (c.own i)
  record : ∃ es, (c.own i).trace = t ++ es ∧
    ((∀ e ∈ es, e.call.loud = false) → ∀ x ∈ ws, x.2.db = x.1.db ∧ x.2.blocked = x.1.blocked)

/-- An own step. -/
theorem Underway.own {t : List Entry} {r : Request} (hT : Clocked T ok) (h : Underway ok t i r ws c)
    (hs : (txSystem Request.program).Step ok mayStop i c c') (hgoes : c'.running i ≠ none) :
    Underway ok t i r (ws ++ [(c.shared, c'.shared)]) c' := by
  have horder := h.order.step (composes_txSystem fun r => fine_request hT r) hs
  obtain ⟨p, hp, hsafe⟩ := h.program
  obtain ⟨es, htrace, hsame⟩ := h.record
  cases hs with
  | start op hn =>
    rw [hp] at hn
    simp at hn
  | finish => simp at hgoes
  | stop => simp at hgoes
  | @act _ β a k res w l hr hn =>
    obtain ⟨rfl, rfl⟩ := Prod.mk.inj (Option.some.inj (hp.symm.trans hr))
    obtain ⟨es', htrace', hsame'⟩ := next_unchanged hn
    refine ⟨horder, ⟨k res, Function.update_self .., ?_⟩, es ++ es', ?_, fun hquiet x hx => ?_⟩
    · dsimp only
      rw [Function.update_self]
      exact (hsafe _ (isRely_undisturbed.refl _ _)).2 _ _ _ hn
    · dsimp only
      rw [Function.update_self, htrace', htrace, List.append_assoc]
    · rcases List.mem_append.1 hx with hx | hx
      · exact hsame (fun e he => hquiet e (List.mem_append_left _ he)) x hx
      · rw [List.mem_singleton.1 hx]
        exact hsame' fun e he => hquiet e (List.mem_append_right _ he)

/-- A step of another process. -/
theorem Underway.other {t : List Entry} {r : Request} {j : ι} (hT : Clocked T ok)
    (h : Underway ok t i r ws c) (hj : j ≠ i)
    (hs : (txSystem Request.program).Step ok mayStop j c c') : Underway ok t i r ws c' := by
  have horder := h.order.step (composes_txSystem fun r => fine_request hT r) hs
  obtain ⟨p, hp, hsafe⟩ := h.program
  have hundisturbed := undisturbed_step h.order hj.symm hs
  have hown : c'.own i = c.own i ∧ c'.running i = c.running i := by
    cases hs <;> simp [Function.update_of_ne hj.symm]
  refine ⟨horder, ⟨p, hown.2.trans hp, ?_⟩, ?_⟩
  · rw [hown.1]
    exact hsafe.stable isRely_undisturbed hundisturbed
  · rw [hown.1]
    exact h.record

theorem underway_of_during (hT : Clocked T ok) {userId : Int} {createdBy : String}
    {name : Option String} (h₀ : InOrder ok Counted Request.program c₀)
    (h : (txSystem Request.program).During ok mayStop i
      (Request.addDevice userId createdBy name) c₀ ws c) :
    Underway ok (c₀.own i).trace i (Request.addDevice userId createdBy name) ws c := by
  induction h with
  | start hn =>
    have hidle : (c₀.own i).inTx = false := by
      have := h₀.sound i
      rw [hn] at this
      exact this
    refine ⟨?_, ⟨_, Function.update_self .., refusing_request userId createdBy name hidle⟩,
      [], by simp, by simp⟩
    have hstep : (txSystem Request.program).Step ok mayStop i c₀ ⟨c₀.shared, c₀.own,
        Function.update c₀.running i
        (some (Request.addDevice userId createdBy name,
        (Request.addDevice userId createdBy name).program))⟩ :=
      .start _ hn
    exact h₀.step (composes_txSystem fun r => fine_request hT r) hstep
  | own _ hs hgoes ih => exact ih.own hT hs hgoes
  | other _ hj hs ih => exact ih.other hT hj hs

/-- A request that is refused has left the committed database and the firewall alone in each of its
steps. -/
theorem refused_unchanged (hT : Clocked T ok) {userId : Int} {createdBy : String}
    {name : Option String} (h₀ : InOrder ok Counted Request.program c₀)
    (h : (txSystem Request.program).During ok mayStop i
      (Request.addDevice userId createdBy name) c₀ ws c)
    {e : Err} (hrefused : c.running i = some (Request.addDevice userId createdBy name, .raise e))
    (he : e.refuses = true) : ∀ x ∈ ws, x.2.db = x.1.db ∧ x.2.blocked = x.1.blocked := by
  have hu := underway_of_during hT h₀ h
  obtain ⟨p, hp, hsafe⟩ := hu.program
  obtain ⟨-, rfl⟩ := Prod.mk.inj (Option.some.inj (hp.symm.trans hrefused))
  obtain ⟨es, htrace, hsame⟩ := hu.record
  obtain ⟨es', htrace', hquiet⟩ := hsafe _ (isRely_undisturbed.refl _ _) e rfl he
  obtain rfl := List.append_cancel_left (htrace'.symm.trans htrace)
  exact hsame hquiet

/-- With limits that are kept, no committed database has a user with more devices than
`max_devices`; an `add_device` that is refused changes neither the committed database nor the
firewall. -/
theorem deviceLimit_kept (hc : AtRest c₀) (hkeyed : Keyed c₀.shared.db)
    (hwithin : Within c₀.shared.db) (hr : Relation.ReflTransGen (LimitedStep ok mayStop) c₀ c) :
    Within c.shared.db ∧
      ∀ (i : ι) (userId : Int) (createdBy : String) (name : Option String)
        (ws : List (World × World)) (c' : Servers ι) (e : Err),
        (txSystem Request.program).During ok mayStop i
          (Request.addDevice userId createdBy name) c ws c' →
        c'.running i = some (Request.addDevice userId createdBy name, .raise e) → e.refuses = true →
        ∀ x ∈ ws, x.2.db = x.1.db ∧ x.2.blocked = x.1.blocked := by
  have hT : Clocked (fun _ => True) ok := fun _ _ _ _ _ _ _ => trivial
  obtain ⟨horder, -, hwithin'⟩ := within_reached hT hc hkeyed hwithin hr
  exact ⟨hwithin', fun i userId createdBy name ws c' e h hrefused he =>
    refused_unchanged hT horder h hrefused he⟩

end Together

/-! ## Two requests for one more device -/

/-- One user with one device, and two free slots. -/
def oneDevice : DB where
  shards := [⟨1, 9301, 0, 1⟩]
  slots := [⟨1, 1, 0, 20000, sampleToken 0, none, .assigned, some 1⟩,
    ⟨2, 1, 1, 20001, sampleToken 1, none, .free, none⟩,
    ⟨3, 1, 2, 20002, sampleToken 2, none, .free, none⟩]
  users := [sampleUser.row 1 "user" .panel .never 0]
  devices := [⟨1, 1, "phone", 1, 0, .panel⟩]
  events := []
  settings := []

def Servers.oneDevice : Servers Nat :=
  ⟨{ World.initial with db := WebProxyPanel.oneDevice }, fun _ => Own.idle 0, fun _ => none⟩

/-- A request from its start, with these choices. -/
def requestTurns (i : Nat) (r : Request) (cs : List Choice) :
    List (Nat × System.Turn Request Choice) :=
  (i, .start r) :: cs.map fun c => (i, .act c)

def Request.oneMore (createdBy : String) : Request := .addDevice 1 createdBy none

/-- The default becomes 2, as a string with blanks, and the panel begins to add a device. -/
def oneRequest : List (Nat × System.Turn Request Choice) :=
  requestTurns 0 (.setDefault (.str " 2 ")) [.ok, .ok, .inputs ⟨[], []⟩, .ok] ++ [(0, .finish)] ++
    requestTurns 0 (.oneMore "panel") [.ok, .ok, .ok]

/-- The bot asks for one more before the panel has its transaction. -/
def otherRequest : List (Nat × System.Turn Request Choice) :=
  [(1, .act .ok), (1, .act .ok), (1, .act .ok), (0, .act .ok), (0, .act (.inputs ⟨[0, 0], []⟩)),
    (0, .act .ok), (0, .act .ok),
    (0, .finish), (1, .act .ok), (1, .act (.inputs ⟨[], []⟩)), (1, .act .ok), (1, .act .ok)]

def limitsKept (c c' : Servers Nat) : Bool := decide (LimitsKept c.shared.db c'.shared.db)

theorem twoRequests_run :
    (((txSystem Request.program).runWhere anything limitsKept oneRequest Servers.oneDevice).bind
      fun c =>
      ((txSystem Request.program).run anything ((1, .start (.oneMore "bot")) :: otherRequest) c).map
        fun c' =>
        (deviceCount 1 c.shared.db, deviceCount 1 c'.shared.db, (c'.running 1).map fun x =>
          x.2.outcome?)) =
      some (1, 2, some (some (.error (.user "Достигнут лимит устройств: 2.")))) := by
  decide +kernel

/-- The panel's device fits in, and the bot is refused the next one. -/
theorem deviceLimit_kept_twoRequests : ∃ (c c' : Servers Nat) (ws : List (World × World)) (e : Err),
    Within c.shared.db ∧ deviceCount 1 c.shared.db = 1 ∧ deviceCount 1 c'.shared.db = 2 ∧
      (txSystem Request.program).During (fun ch {_} a s => anything ch a s = true) True 1
        (.oneMore "bot") c ws c' ∧
      c'.running 1 = some (.oneMore "bot", .raise e) ∧ e = .user "Достигнут лимит устройств: 2." ∧
      ∀ x ∈ ws, x.2.db = x.1.db ∧ x.2.blocked = x.1.blocked := by
  obtain ⟨c, hrun, hrest⟩ := Option.bind_eq_some_iff.1 twoRequests_run
  obtain ⟨c', hother, hend⟩ := Option.map_eq_some_iff.1 hrest
  obtain ⟨hbefore, hafter, hout⟩ : deviceCount 1 c.shared.db = 1 ∧ deviceCount 1 c'.shared.db = 2 ∧
      ((c'.running 1).map fun x => x.2.outcome?) =
      some (some (.error (.user "Достигнут лимит устройств: 2."))) := by
    simpa using hend
  have hpath : Relation.ReflTransGen (LimitedStep (fun ch {_} a s => anything ch a s = true) True)
      Servers.oneDevice c :=
    Relation.ReflTransGen.mono (fun _ _ h => ⟨h.1, of_decide_eq_true h.2⟩) _ _
      (System.path_of_runWhere hrun)
  have hidle : AtRest Servers.oneDevice := ⟨fun _ => rfl, rfl, fun _ => rfl⟩
  have hkeyed : Keyed Servers.oneDevice.shared.db := ⟨by decide, by decide⟩
  have hwithin : Within Servers.oneDevice.shared.db := by
    unfold Within
    decide +kernel
  obtain ⟨hkept, hrefused⟩ := deviceLimit_kept hidle hkeyed hwithin hpath
  -- the bot's request, from its start to the exception
  obtain ⟨c₁, hstart, hother⟩ := Option.bind_eq_some_iff.1 hother
  have hacts : ∀ x ∈ otherRequest, x.1 = 1 → ∃ ch, x.2 = .act ch := by
    simp [otherRequest]
  obtain ⟨ws, hduring⟩ := System.During.of_run (System.During.of_start hstart) hacts hother
  obtain ⟨p, hp⟩ := hduring.running
  rw [hp, Option.map_some, Option.some.injEq] at hout
  obtain rfl := Prog.outcome?_eq_some.1 hout
  exact ⟨c, c', ws, _, hkept, hbefore, hafter, hduring, hp, rfl,
    hrefused 1 1 "bot" none ws c' _ hduring hp rfl⟩

end WebProxyPanel
