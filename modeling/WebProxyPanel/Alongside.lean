import WebProxyPanel.Lib.Twin
import WebProxyPanel.Blind
/-!
# Two processes that see the same

`Like R T`: the committed databases are related by `R`, and with an open transaction its copies by
`T`; what else a process can observe is the same, up to the contents of files. The outside makes the
same choices (`Choice.Same`) up to random values.

* `alongside_*` — one rule an action or a part of a program, for `Alongside`: what two programs end
  in that run side by side.
-/

namespace WebProxyPanel
open Effects

/-! ## What is compared -/

/-- Without the contents of files. -/
def Call.redact : Call → Call
  | .writeFile path _ => .writeFile path (.text "")
  | call => call

def Entry.redact (e : Entry) : Entry := { e with call := e.call.redact }

/-- The same choice, up to the random values and what a failing statement leaves behind. -/
inductive Choice.Same : Choice → Choice → Prop
  | same (c : Choice) : Choice.Same c c
  | random (times : List Int) (tokens tokens' : List String) : Choice.Same (.inputs ⟨times, tokens⟩)
      (.inputs ⟨times, tokens'⟩)
  | failed (message : String) (gone : Bool) (left left' : DB) : Choice.Same
      (.sqlFail message gone left) (.sqlFail message gone left')

theorem Choice.Same.result {c d : Choice} (h : Choice.Same c d) : c.result = d.result := by
  cases h <;> rfl

/-- Two open transactions, or none. -/
def Copies : Option (DB → DB → Prop) → Option Tx → Option Tx → Prop
  | none, none, none => True
  | some T, some x, some y => T x.copy y.copy
  | _, _, _ => False

structure Like (R : DB → DB → Prop) (T : Option (DB → DB → Prop)) (s t : State) : Prop where
  db : R s.1.db t.1.db
  writer : Copies T s.1.writer t.1.writer
  inTx : s.2.inTx = T.isSome
  inTx' : t.2.inTx = T.isSome
  calls : s.2.firewallCalls = t.2.firewallCalls
  trace : s.2.trace.map Entry.redact = t.2.trace.map Entry.redact
  blocked : s.1.blocked = t.1.blocked
  files : ∀ path, (s.1.files path).isSome = (t.1.files path).isSome

section Like
variable {R R' : DB → DB → Prop} {T : Option (DB → DB → Prop)} {U : DB → DB → Prop}
  {s t s₁ t₁ : State}

theorem Like.mono (hR : ∀ D E, R D E → R' D E) (h : Like R T s t) : Like R' T s t :=
  { h with db := hR _ _ h.db }

/-- The record grows by entries that differ at most in what was written. -/
theorem Like.note {es es' : List Entry} (he : es.map Entry.redact = es'.map Entry.redact)
    (h : Like R T s t) :
    Like R T (s.1, s.2.note es) (t.1, t.2.note es') where
  db := h.db
  writer := h.writer
  inTx := h.inTx
  inTx' := h.inTx'
  calls := h.calls
  trace := by rw [Own.note_trace, Own.note_trace, List.map_append, List.map_append, h.trace, he]
  blocked := h.blocked
  files := h.files

theorem Copies.note {f : Tx → Tx} (hf : ∀ x, (f x).copy = x.copy) {x y : Option Tx}
    (h : Copies T x y) : Copies T (x.map f) (y.map f) := by
  cases T <;> cases x <;> cases y <;> first | exact h.elim | exact h | (simpa [Copies, hf] using h)

/-- An action is its response, on either side. -/
theorem alongside_respond {α β : Type} {a : Action α} {b : Action β}
    {K : α → β → State → State → Prop} {E : State → State → Prop}
    (hcall : (a.call?.map Call.redact) = b.call?.map Call.redact)
    (h : ∀ c d, Choice.Same c d → ∀ r r' s₁ t₁, respond c a s = some (r, s₁) →
      respond d b t = some (r', t₁) → ∀ es es' :
      List Entry, es.map Entry.redact = es'.map Entry.redact →
        Ends₂ K (fun e e' s t => e = e' ∧ E s t) r r' (s₁.1, s₁.2.note es) (t₁.1, t₁.2.note es')) :
    Twin sem Choice.Same K (fun e e' s t => e = e' ∧ E s t) (.call a) (.call b) s t := by
  refine Twin.call fun c d hc r r' s₁ t₁ h₁ h₂ => ?_
  obtain ⟨⟨r₀, s₀⟩, hs₀, heq⟩ := Option.map_eq_some_iff.1 h₁
  obtain ⟨rfl, rfl⟩ := Prod.mk.inj heq
  obtain ⟨⟨r₀', t₀⟩, ht₀, heq'⟩ := Option.map_eq_some_iff.1 h₂
  obtain ⟨rfl, rfl⟩ := Prod.mk.inj heq'
  refine h c d hc r₀ r₀' s₀ t₀ hs₀ ht₀ _ _ ?_
  unfold entries
  cases ha : a.call? <;> cases hb : b.call? <;> rw [ha, hb] at hcall <;>
    simp_all [Entry.redact, hc.result]

end Like

/-! ## Actions -/

/-- Actions that neither read a table nor a file, and start or end no transaction. -/
def Action.even {β : Type} : Action β → Prop
  | .beginImmediate | .commit | .rollback | .sql _ | .query _ | .ctlSelect _ | .readFile _ |
    .writeFile _ _ =>
    False
  | _ => True

/-- Two programs from one pair of states; exceptions are equal. -/
abbrev Alongside {α β : Type} (K : α → β → State → State → Prop) (E : State → State → Prop)
    (p : P α) (q : P β) (s t : State) : Prop :=
  Twin sem Choice.Same K (fun e e' s t => e = e' ∧ E s t) p q s t

section Actions
variable {R : DB → DB → Prop} {T : Option (DB → DB → Prop)} {U V : DB → DB → Prop}
  {s t s₁ t₁ : State} {α β : Type} {ρ : α → β → Prop}

theorem Like.fwCall (h : Like R T s t) (call : FwCall) (fails done : Bool) :
    Like R T (s.1.fwCall call fails done, s.2.called call)
      (t.1.fwCall call fails done, t.2.called call) where
  db := h.db
  writer := by
    rw [World.fwCall_writer, World.fwCall_writer]
    refine h.writer.note ?_
    exact fun _ => rfl
  inTx := h.inTx
  inTx' := h.inTx'
  calls := by rw [Own.called_firewallCalls, Own.called_firewallCalls, h.calls]
  trace := h.trace
  blocked := by rw [World.fwCall_blocked, World.fwCall_blocked, h.blocked]
  files := h.files

theorem Like.replace (h : Like R T s t) (ports blocked : List Int) :
    Like R T (s.1.replace s.2.inTx ports blocked, s.2) (t.1.replace t.2.inTx ports blocked, t.2) :=
  { h with blocked := rfl }

theorem Like.setFile (h : Like R T s t) (path : Path) {data data' : Option Content}
    (hd : data.isSome = data'.isSome) :
    Like R T (s.1.setFile path data, s.2) (t.1.setFile path data', t.2) := by
  refine { h with files := fun p => ?_ }
  rw [World.setFile_files, World.setFile_files]
  split
  · exact hd
  · exact h.files p

variable {c d : Choice}

theorem Like.plain {f g : World → World} (hc : Choice.Same c d) (h : Like R T s t)
    (hf : Like R T (f s.1, s.2) (g t.1, t.2)) {r r' : Except Err Unit}
    (h₁ : plain c f s = some (r, s₁)) (h₂ : plain d g t = some (r', t₁)) :
    r = r' ∧ Like R T s₁ t₁ := by
  cases hc with
  | random times tokens tokens' => simp [WebProxyPanel.plain] at h₁
  | failed message gone left left' => simp [WebProxyPanel.plain] at h₁
  | same c =>
    cases c with
    | ok =>
      simp only [WebProxyPanel.plain, Option.some.injEq, Prod.mk.injEq] at h₁ h₂
      obtain ⟨rfl, rfl⟩ := h₁
      obtain ⟨rfl, rfl⟩ := h₂
      exact ⟨rfl, hf⟩
    | fail m done =>
      simp only [WebProxyPanel.plain, Option.some.injEq, Prod.mk.injEq] at h₁ h₂
      obtain ⟨rfl, rfl⟩ := h₁
      obtain ⟨rfl, rfl⟩ := h₂
      cases done with
      | true => exact ⟨rfl, hf⟩
      | false => exact ⟨rfl, h⟩
    | _ => simp [WebProxyPanel.plain] at h₁

theorem Like.read {f : String → Err} {x : α} {y : β} (hxy : ρ x y) (hc : Choice.Same c d)
    (h : Like R T s t) {r : Except Err α} {r' : Except Err β} (h₁ : read c x f s = some (r, s₁))
    (h₂ : read d y f t = some (r', t₁)) :
    Ends₂ (fun x y s t => ρ x y ∧ Like R T s t) (fun e e' s t => e = e' ∧ Like R T s t) r
      r' s₁ t₁ := by
  cases hc with
  | random times tokens tokens' => simp [WebProxyPanel.read] at h₁
  | failed message gone left left' => simp [WebProxyPanel.read] at h₁
  | same c =>
    cases c with
    | ok =>
      simp only [WebProxyPanel.read, Option.some.injEq, Prod.mk.injEq] at h₁ h₂
      obtain ⟨rfl, rfl⟩ := h₁
      obtain ⟨rfl, rfl⟩ := h₂
      exact ⟨hxy, h⟩
    | fail m done =>
      simp only [WebProxyPanel.read, Option.some.injEq, Prod.mk.injEq] at h₁ h₂
      obtain ⟨rfl, rfl⟩ := h₁
      obtain ⟨rfl, rfl⟩ := h₂
      exact ⟨rfl, h⟩
    | _ => simp [WebProxyPanel.read] at h₁

theorem Like.even {a : Action α} (ha : a.even) (hc : Choice.Same c d) (h : Like R T s t)
    {r r' : Except Err α} (h₁ : respond c a s = some (r, s₁)) (h₂ : respond d a t = some (r', t₁)) :
    r = r' ∧ Like R T s₁ t₁ := by
  have hcd : c = d := by
    cases hc with
    | same c => rfl
    | random times tokens tokens' =>
      cases a <;> first | exact ha.elim | simp [respond, WebProxyPanel.plain, WebProxyPanel.read]
        at h₁
    | failed message gone left left' =>
      cases a <;> first | exact ha.elim | simp [respond, WebProxyPanel.plain, WebProxyPanel.read]
        at h₁
  subst hcd
  have hinTx : s.2.inTx = t.2.inTx := h.inTx.trans h.inTx'.symm
  have hcalls := h.calls
  cases a with
  | removeFile path => exact h.plain hc (h.setFile path rfl) h₁ h₂
  | restartRelay => exact h.plain hc h h₁ h₂
  | restartShard k => exact h.plain hc h h₁ h₂
  | stopShard k => exact h.plain hc h h₁ h₂
  | enableShard k => exact h.plain hc { h with } h₁ h₂
  | disableShard k => exact h.plain hc { h with } h₁ h₂
  | now => cases c <;> simp_all [respond]
  | inTransaction => cases c <;> simp_all [respond]
  | firewallCalls => cases c <;> simp_all [respond]
  | relayCheck p q => cases c <;> simp_all [respond]
  | waitHealthy ks => cases c <;> simp_all [respond]
  | ctlCurrent =>
    have hanswer := h.read (ρ := Eq) h.blocked hc h₁ h₂
    cases r <;> cases r' <;> simp_all [Ends₂]
  | fwCall call =>
    cases c with
    | ok =>
      simp only [respond, Option.some.injEq, Prod.mk.injEq] at h₁ h₂
      obtain ⟨rfl, rfl⟩ := h₁
      obtain ⟨rfl, rfl⟩ := h₂
      exact ⟨rfl, h.fwCall call false true⟩
    | fail m done =>
      simp only [respond, Option.some.injEq, Prod.mk.injEq] at h₁ h₂
      obtain ⟨rfl, rfl⟩ := h₁
      obtain ⟨rfl, rfl⟩ := h₂
      exact ⟨rfl, h.fwCall call true done⟩
    | _ => simp [respond] at h₁
  | ctlReplace ports blocked =>
    cases c with
    | ok =>
      simp only [respond, Option.some.injEq, Prod.mk.injEq] at h₁ h₂
      obtain ⟨rfl, rfl⟩ := h₁
      obtain ⟨rfl, rfl⟩ := h₂
      exact ⟨rfl, { h.replace ports blocked with }⟩
    | fail m done =>
      simp only [respond, Option.some.injEq, Prod.mk.injEq] at h₁ h₂
      obtain ⟨rfl, rfl⟩ := h₁
      obtain ⟨rfl, rfl⟩ := h₂
      cases done with
      | true => exact ⟨rfl, h.replace ports blocked⟩
      | false => exact ⟨rfl, h⟩
    | _ => simp [respond] at h₁
  | lock =>
    cases c with
    | ok =>
      simp only [respond, Option.ite_none_left_eq_some, Option.some.injEq, Prod.mk.injEq] at h₁ h₂
      obtain ⟨-, rfl, rfl⟩ := h₁
      obtain ⟨-, rfl, rfl⟩ := h₂
      exact ⟨rfl, { h with }⟩
    | fail m done =>
      simp only [respond, Option.some.injEq, Prod.mk.injEq] at h₁ h₂
      obtain ⟨rfl, rfl⟩ := h₁
      obtain ⟨rfl, rfl⟩ := h₂
      exact ⟨rfl, h⟩
    | _ => simp [respond] at h₁
  | unlock =>
    cases c with
    | ok =>
      simp only [respond, Option.some.injEq, Prod.mk.injEq] at h₁ h₂
      obtain ⟨rfl, rfl⟩ := h₁
      obtain ⟨rfl, rfl⟩ := h₂
      exact ⟨rfl, { h with }⟩
    | _ => simp [respond] at h₁
  | _ => exact ha.elim

/-! ### Calls -/

theorem alongside_even {a : Action α} (ha : a.even) (h : Like R T s t) :
    Alongside (fun x y s t => x = y ∧ Like R T s t) (Like R T) (.call a) (.call a) s t := by
  refine alongside_respond rfl fun c d hc r r' s₁ t₁ h₁ h₂ es es' hes => ?_
  obtain ⟨rfl, hlike⟩ := h.even ha hc h₁ h₂
  cases r with
  | ok x => exact ⟨rfl, hlike.note hes⟩
  | error e => exact ⟨rfl, hlike.note hes⟩

theorem Like.rolledBack (h : Like R T s t) (x y : Tx) :
    Like R none (s.1.rollback, s.2.rolledBack x) (t.1.rollback, t.2.rolledBack y) :=
  { h with writer := trivial, inTx := rfl, inTx' := rfl }

end Actions

end WebProxyPanel
