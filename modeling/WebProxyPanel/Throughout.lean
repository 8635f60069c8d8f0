import WebProxyPanel.Maintained
/-!
# What holds throughout a run, whatever fails

Rules for one process alone under any fault model: what it knows of the database, of files and units
and of its record stays, and nothing but COMMIT and the disabling of a unit is asked for leave
(`watch`).

* `Still` — the knowledge, in a transaction or outside.
* `still_statements`, `still_poolSync`, `still_applyLock` — the transactions and the lock.
-/

namespace WebProxyPanel
open Effects

/-- `C` before COMMIT, `D` before a unit is disabled. -/
def watch (C : Tx → World → Prop) (D : Int → World → Prop) : Guard Action World Own :=
  fun w l {_} a =>
  match a with
  | .commit => ∀ tx, ownTx (w, l) = some tx → C tx w
  | .disableShard k => D k w
  | _ => True

/-- A call of the database, of `wppctl sync` or of the lock. -/
def Call.internal : Call → Bool
  | .begin_ | .commit | .rollback | .statements | .select | .ctlSelect | .ctlCurrent | .ctlReplace |
    .lock | .unlock =>
    true
  | _ => false

/-- Knowledge of files, units and record that such calls leave alone. -/
abbrev Known := (Path → Option Content) → Finset Int → List Entry → Prop

def Known.Lasts (K : Known) : Prop :=
  ∀ f u es call r, call.internal = true → K f u es → K f u (es ++ [⟨call, r⟩])

structure Still (K : Known) (db : DB) (tx : Option Tx) (w : World) (l : Own) : Prop where
  inTx : l.inTx = tx.isSome
  writer : w.writer = tx
  db : w.db = db
  known : K w.files w.units l.trace

section Rules
variable {ok : Allow Action Choice State} {C : Tx → World → Prop} {D : Int → World → Prop}
  {α β : Type}
variable {K : Known} {db db' : DB} {tx : Option Tx} {w : World} {l : Own}

theorem Still.note (hK : K.Lasts) (h : Still K db tx w l) {call : Call} {r : Result}
    (hc : call.internal = true) :
    Still K db tx w (l.note [⟨call, r⟩]) where
  inTx := h.inTx
  writer := h.writer
  db := h.db
  known := hK _ _ _ _ _ hc h.known

theorem Still.own {t : Tx} (h : Still K db (some t) w l) : ownTx (w, l) = some t := by
  have hin := h.inTx
  simp only [Option.isSome_some] at hin
  simp [ownTx, hin, h.writer]

theorem Still.own_none (h : Still K db none w l) : ownTx (w, l) = none := by
  simp [ownTx, h.inTx]

theorem Still.rolledBack {t : Tx} (h : Still K db (some t) w l) :
    Still K db none w.rollback (l.rolledBack t) :=
  ⟨rfl, rfl, h.db, h.known⟩

theorem Still.setTx {t : Tx} (h : Still K db (some t) w l) (t' : Tx) :
    Still K db (some t') { w with writer := some t' } l :=
  ⟨h.inTx, rfl, h.db, h.known⟩

/-- On the way out of a transaction, open or not. -/
def Leaving (K : Known) (db : DB) (_ : Err) (w : World) (l : Own) : Prop := ∃ tx, Still K db tx w l

/-- From a body to its transaction; `X` says what the body leaves in it. -/
theorem still_transaction (hK : K.Lasts) {X : α → Tx → Prop} {body : P α}
    (hbody : ∀ w l, Still K db (some ⟨db, [], false, []⟩) w l →
      Safe sem ok alone (watch C D)
        (post (fun a w l => ∃ t, X a t ∧ Still K db (some t) w l) (Leaving K db)) body w l)
    (hcommit : ∀ a t w l, X a t → Still K db (some t) w l → C t w) (h : Still K db none w l) :
    Safe sem ok alone (watch C D) (post (fun a w l => ∃ t, X a t ∧ Still K t.copy none w l) fun _ =>
      Still K db none)
      (transaction body) w l := by
  refine safe_transaction
    (B := post (fun a w l => ∃ t, X a t ∧ Still K db (some t) w l) (Leaving K db)) isRely_alone
    (fun _ _ => ⟨trivial, trivial⟩) (stable_alone _) (stable_alone _) h.inTx ?_ ?_ ?_ ?_
  · rintro _ rfl
    exact ⟨trivial, fun msg done _ => h.note hK rfl⟩
  · rintro _ rfl -
    refine hbody _ _ ⟨rfl, ?_, h.db, ?_⟩
    · rw [World.begin__writer, h.db]
    · exact hK _ _ _ .begin_ .ok rfl h.known
  · rintro a w l ⟨t, hx, ht⟩
    refine ⟨t, ht.own, fun t' ht' => ?_, ⟨t, hx, rfl, rfl, rfl, hK _ _ _ .commit .ok rfl ht.known⟩,
      fun msg left _ => ?_, ?_⟩
    · rw [ht.own] at ht'
      exact Option.some.inj ht' ▸ hcommit a t w l hx ht
    · exact ht.rolledBack.note hK rfl
    · rintro msg left _ _ rfl
      have hraised : Still K db (some t) w (l.note [⟨.commit, .raised⟩]) := ht.note hK rfl
      exact ⟨t, ht.own, hraised.rolledBack.note hK rfl⟩
  · rintro e w l ⟨tx, ht⟩
    unfold RollsBack
    cases tx with
    | some t =>
      rw [ht.own]
      exact ht.rolledBack.note hK rfl
    | none =>
      rw [ht.own_none]
      exact fun _ => ht.note hK rfl

/-- Statements and a COMMIT. -/
theorem still_statements (hK : K.Lasts) {s : Sql α}
    (hcommit : ∀ a t w l, Yields s db (.ok a) t.copy → Still K db (some t) w l → C t w)
    (h : Still K db none w l) :
    Safe sem ok alone (watch C D)
      (post (fun a w l => ∃ db', Yields s db (.ok a) db' ∧ Still K db' none w l)
      fun _ => Still K db none) (transaction (sql s)) w l := by
  refine (still_transaction hK (X := fun a t => Yields s db (.ok a) t.copy) (fun w l h => ?_)
    hcommit h).mono ?_
  · refine Safe.callStable (stable_alone _) ?_
    rintro _ rfl
    refine ⟨trivial, fun r w₂ l₂ hn => ?_⟩
    rcases next_sql h.own hn with ⟨inp, db', -, hhex, rfl, rfl, ⟨a, hm, rfl⟩ | ⟨e, hm, rfl⟩⟩ |
        ⟨msg, gone, left, -, rfl, hg⟩
    · exact ⟨_, ⟨inp, by simpa using hhex, hm⟩, (h.setTx _).note hK rfl⟩
    · exact ⟨_, (h.setTx _).note hK rfl⟩
    · rcases hg with ⟨-, rfl, rfl⟩ | ⟨-, rfl, rfl⟩
      · exact ⟨none, h.rolledBack.note hK rfl⟩
      · exact ⟨_, (h.setTx _).note hK rfl⟩
  · rintro (e | a) w l hq
    · exact hq
    · obtain ⟨t, hy, ht⟩ := hq
      exact ⟨t.copy, hy, ht⟩

/-- A read of `wppctl sync`, whatever it answers. -/
theorem still_look (hK : K.Lasts) {a : Action β} {call : Call} {b : β} {f : String → Err}
    (hcall : a.call? = some call) (hc : call.internal = true) (hD : watch C D w l a)
    (ha : ∀ c, respond c a (w, l) = read c b f (w, l)) (h : Still K db tx w l) :
    Safe sem ok alone (watch C D) (post (fun _ => Still K db tx) fun _ => Still K db tx)
      (.call a) w l := by
  refine Safe.callStable (stable_alone _) ?_
  rintro _ rfl
  refine ⟨hD, fun r w₂ l₂ hn => ?_⟩
  rcases next_read hcall ha hn with ⟨rfl, rfl, rfl⟩ | ⟨msg, done, -, rfl, rfl, rfl⟩
  · exact h.note hK hc
  · exact h.note hK hc

theorem still_sync (hK : K.Lasts) (h : Still K db tx w l) :
    Safe sem ok alone (watch C D) (post (fun _ => Still K db tx) fun _ => Still K db tx)
      syncFirewall w l := by
  unfold syncFirewall
  simp only [Prog.bind_eq]
  refine Safe.seq isRely_alone (still_look hK rfl rfl trivial (fun _ => rfl) h) fun ports
    w₁ l₁ h₁ => ?_
  refine Safe.seq isRely_alone (still_look hK rfl rfl trivial (fun _ => rfl) h₁) fun blocked
    w₂ l₂ h₂ => ?_
  refine Safe.seq isRely_alone (still_look hK rfl rfl trivial (fun _ => rfl) h₂) fun shards
    w₃ l₃ h₃ => ?_
  split
  · exact Safe.raiseStable (stable_alone _) h₃
  split
  · exact Safe.raiseStable (stable_alone _) h₃
  refine Safe.seq isRely_alone (still_look hK rfl rfl trivial (fun _ => rfl) h₃) fun _ w₄ l₄ h₄ =>
    ?_
  refine Safe.callStable (stable_alone _) ?_
  rintro _ rfl
  refine ⟨trivial, fun r w₅ l₅ hn => ?_⟩
  have hrep : ∀ i ps bs l', l'.inTx = l₄.inTx → l'.trace = l₄.trace →
      Still K db tx (w₄.replace i ps bs) l' :=
    fun i ps bs l' hin htrace => ⟨hin.trans h₄.inTx, h₄.writer, h₄.db, htrace ▸ h₄.known⟩
  rcases next_ctlReplace hn with ⟨-, rfl, rfl, rfl⟩ | ⟨msg, done, -, rfl, rfl, rfl⟩
  · exact Still.note hK (hrep _ _ _ l₄.replaced rfl rfl)
      (show Call.ctlReplace.internal = true from rfl)
  · cases done with
    | false => exact h₄.note hK rfl
    | true =>
      exact Still.note hK (hrep _ _ _ l₄ rfl rfl) (show Call.ctlReplace.internal = true from rfl)

theorem still_poolSync (hK : K.Lasts)
    (hcommit : ∀ t w l, t.copy = db → Still K db (some t) w l → C t w) (h : Still K db none w l) :
    Safe sem ok alone (watch C D) (post (fun _ => Still K db none) fun _ => Still K db none)
      poolSync w l := by
  refine (still_transaction hK (X := fun _ t => t.copy = db)
    (fun w l h => (still_sync hK h).mono ?_) (fun _ t w l ht h => hcommit t w l ht h) h).mono ?_
  · rintro (e | a) w l hq
    · exact ⟨_, hq⟩
    · exact ⟨_, rfl, hq⟩
  · rintro (e | a) w l hq
    · exact hq
    · obtain ⟨t, ht, h⟩ := hq
      exact ht ▸ h

/-! ## The lock -/

/-- `apply_lock`: what holds on either way out of its body holds after it. -/
theorem still_applyLock (hK : K.Lasts) {E : DB → Prop} {body : P α}
    (hbody : ∀ w l, Still K db none w l →
      Safe sem ok alone (watch C D)
        (post (fun _ w l => ∃ db', E db' ∧ Still K db' none w l) fun _ w l => ∃ db', E db' ∧
          Still K db' none w l) body w l)
    (hE : E db) (h : Still K db none w l) :
    Safe sem ok alone (watch C D) (post (fun _ w l => ∃ db', E db' ∧ Still K db' none w l)
      fun _ w l => ∃ db', E db' ∧ Still K db' none w l) (applyLock body) w l := by
  have hunlock : ∀ {Q : Except Err Unit → World → Own → Prop} {w l},
      (∃ db', E db' ∧ Still K db' none w l) →
      (∀ w l, (∃ db', E db' ∧ Still K db' none w l) → Q (.ok ()) w l) →
      Safe sem ok alone (watch C D) Q (.call .unlock) w l := by
    rintro Q w l ⟨db', he, h⟩ hQ
    refine Safe.callStable (stable_alone _) ?_
    rintro _ rfl
    refine ⟨trivial, fun r w₂ l₂ hn => ?_⟩
    obtain ⟨rfl, rfl, rfl⟩ := next_unlock hn
    exact hQ _ _ ⟨db', he, h.inTx, h.writer, h.db, hK _ _ _ _ _ rfl h.known⟩
  unfold applyLock
  simp only [Prog.bind_eq]
  refine Safe.seq isRely_alone (K := fun _ => Still K db none) (Safe.callStable (stable_alone _) ?_)
    fun _ w₁ l₁ h₁ => ?_
  · rintro _ rfl
    refine ⟨trivial, fun r w₂ l₂ hn => ?_⟩
    rcases next_lock hn with ⟨rfl, -, rfl, rfl⟩ | ⟨msg, done, -, rfl, rfl, rfl⟩
    · exact ⟨h.inTx, h.writer, h.db, hK _ _ _ _ _ rfl h.known⟩
    · exact ⟨db, hE, h.note hK rfl⟩
  · exact Safe.tryFinally isRely_alone (stable_alone _) (by rintro a w l _ rfl h; exact h)
      (by rintro e w l _ rfl h; exact h)
      (hbody w₁ l₁ h₁) (fun a w l hq => hunlock hq fun _ _ => id) fun e w l hq =>
        hunlock hq fun _ _ => id

end Rules

end WebProxyPanel
