import Mathlib.Tactic.Common
import WebProxyPanel.Migrate
/-!
# Migrations under concurrent start

The version is read before the script takes the write lock, and the loop keeps its own copy of it.
So two connections that have read the same version both execute the script. As long as the version
is still the stored one whenever BEGIN IMMEDIATE goes through, every script runs once and in order.
And a failed statement leaves the transaction open, unless SQLite rolls it back by itself.

* `Complete` — the database after some complete migrations.
* `Timely` — the steps that the result needs.
* `Does`, `Global` — what a step can do, and the invariant of all connections together.
-/

namespace WebProxyPanel.Migrate
open Effects

variable {Stmt S ι : Type} {run : Stmt → S → Option S} {migrations : List (List Stmt)} {schema₀ : S}
  {v₀ : Int}

/-- The schema after the statements, if none of them fails. -/
def after (run : Stmt → S → Option S) (schema : S) (xs : List Stmt) : Option S :=
  xs.foldlM (fun s st => run st s) schema

theorem after_append {schema : S} {xs ys : List Stmt} :
    after run schema (xs ++ ys) = (after run schema xs).bind fun s => after run s ys := by
  simp [after, List.foldlM_append, bind]

/-- The scripts from `v₀` up to `version`. -/
def scripts (migrations : List (List Stmt)) (v₀ version : Int) : List (List Stmt) :=
  (migrations.drop v₀.toNat).take (version - v₀).toNat

/-- Every script from `v₀` up to the version has run, once and in order, and nothing else. -/
structure Complete (run : Stmt → S → Option S) (migrations : List (List Stmt)) (schema₀ : S)
    (v₀ : Int) (db : Db Stmt S) :
    Prop where
  lower : v₀ ≤ db.version
  upper : db.version ≤ migrations.length
  ran : db.ran = (scripts migrations v₀ db.version).flatten
  schema : after run schema₀ db.ran = some db.schema

theorem scripts_succ {script : List Stmt} {version : Int} (h₀ : 0 ≤ v₀) (hle : v₀ ≤ version)
    (h : item migrations version = some script) :
    scripts migrations v₀ (version + 1) = scripts migrations v₀ version ++ [script] := by
  have hget : migrations[version.toNat]? = some script := by
    rwa [item, if_pos (by omega)] at h
  have hsucc : (version + 1 - v₀).toNat = (version - v₀).toNat + 1 := by omega
  have hsum : v₀.toNat + (version - v₀).toNat = version.toNat := by omega
  rw [scripts, hsucc, List.take_add_one, List.getElem?_drop, hsum, hget]
  rfl

/-- The script of the stored version, and the version with it. -/
theorem Complete.next {D : Db Stmt S} (hD : Complete run migrations schema₀ v₀ D) (h₀ : 0 ≤ v₀)
    {script : List Stmt} (h : item migrations D.version = some script)
    (hlt : D.version < migrations.length) {schema : S}
    (hschema : after run D.schema script = some schema) :
    Complete run migrations schema₀ v₀ ⟨schema, D.version + 1, D.ran ++ script⟩ := by
  have hle := hD.lower
  refine ⟨?_, ?_, ?_, ?_⟩
  · show v₀ ≤ D.version + 1
    omega
  · show D.version + 1 ≤ migrations.length
    omega
  · show D.ran ++ script = (scripts migrations v₀ (D.version + 1)).flatten
    rw [scripts_succ h₀ hle h, List.flatten_append, hD.ran]
    simp
  · show after run schema₀ (D.ran ++ script) = some schema
    rw [after_append, hD.schema]
    exact hschema

theorem item_lt {version : Int} (h₀ : 0 ≤ version) (hlt : version < migrations.length) :
    ∃ script, item migrations version = some script := by
  have : version.toNat < migrations.length := by omega
  exact ⟨migrations[version.toNat], by simp [item, h₀, this]⟩

/-- BEGIN IMMEDIATE goes through only while the stored version is the one that the connection has
last read or written, and no statement in the transaction fails, unless SQLite rolls the transaction
back. -/
def Timely (run : Stmt → S → Option S) : Allow (Action Stmt) Choice (State Stmt S) :=
  fun c {_} a s =>
  match a, c with
  | .execute .beginImmediate, .ok => s.1.db.version = s.2.seen
  | .execute .beginImmediate, .fail _ _ => True
  | .execute (.plain st), .ok => ∀ t, s.2.tx = some t → (run st t.schema).isSome
  | .execute _, .fail _ gone => gone = true
  | _, _ => True

/-! ## One action -/

section Next
variable {ok : Allow (Action Stmt) Choice (State Stmt S)} {w w' : Store Stmt S} {l l' : Conn Stmt S}

theorem next_userVersion (htx : l.tx = none) {r : Except Failure Int}
    (h : (sqlite run).Next ok (w, l) .userVersion r (w', l')) :
    w' = w ∧ l'.tx = none ∧ l'.outcome = none ∧
      ((r = .ok w.db.version ∧ l'.seen = w.db.version) ∨ ∃ e, r = .error e ∧ l'.failed = true) := by
  obtain ⟨c, -, h⟩ := h
  cases c with
  | ok =>
    simp only [sqlite, perform, view, htx, Option.getD_none, Option.some.injEq, Prod.mk.injEq] at h
    obtain ⟨rfl, rfl, rfl⟩ := h
    exact ⟨rfl, rfl, rfl, .inl ⟨rfl, rfl⟩⟩
  | fail m gone =>
    simp only [sqlite, perform, failure, htx, Option.some.injEq, Prod.mk.injEq] at h
    obtain ⟨rfl, rfl, rfl⟩ := h
    exact ⟨rfl, rfl, rfl, .inr ⟨_, rfl, rfl⟩⟩

theorem next_commitOpen (htx : l.tx = none) {r : Except Failure Unit}
    (h : (sqlite run).Next ok (w, l) .commitOpen r (w', l')) : r = .ok () ∧ w' = w ∧ l' = l := by
  obtain ⟨c, -, h⟩ := h
  cases c with
  | ok =>
    simp only [sqlite, perform, htx, Option.some.injEq, Prod.mk.injEq] at h
    obtain ⟨rfl, rfl, rfl⟩ := h
    exact ⟨rfl, rfl, rfl⟩
  | fail m gone => simp [sqlite, perform, htx] at h

theorem next_report {out : Except Failure Int} {r : Except Failure Unit}
    (h : (sqlite run).Next ok (w, l) (.report out) r (w', l')) :
    r = .ok () ∧ w' = w ∧ l' = { l with outcome := some out } := by
  obtain ⟨c, -, h⟩ := h
  cases c with
  | ok =>
    simp only [sqlite, perform, Option.some.injEq, Prod.mk.injEq] at h
    obtain ⟨rfl, rfl, rfl⟩ := h
    exact ⟨rfl, rfl, rfl⟩
  | fail m gone => simp [sqlite, perform] at h

variable (hok : ∀ c {β : Type} (a : Action Stmt β) s, ok c a s → Timely run c a s)
include hok

theorem next_begin (htx : l.tx = none) {r : Except Failure Unit}
    (h : (sqlite run).Next ok (w, l) (.execute .beginImmediate) r (w', l')) :
    (r = .ok () ∧ w.db.version = l.seen ∧ w.locked = false ∧ w' = { w with locked := true } ∧
      l' = { l with tx := some w.db }) ∨
      ∃ e, r = .error e ∧ w' = w ∧ l' = { l with failed := true } := by
  obtain ⟨c, hc, h⟩ := h
  cases c with
  | ok =>
    simp only [sqlite, perform, htx] at h
    split at h
    · simp at h
    · rename_i hfree
      simp only [Option.some.injEq, Prod.mk.injEq] at h
      obtain ⟨rfl, rfl, rfl⟩ := h
      exact .inl ⟨rfl, hok _ _ _ hc, by simpa using hfree, rfl, rfl⟩
  | fail m gone =>
    simp only [sqlite, perform, failure, htx, Option.some.injEq, Prod.mk.injEq] at h
    obtain ⟨rfl, rfl, rfl⟩ := h
    exact .inr ⟨_, rfl, rfl, by rw [htx]⟩

/-- A statement in the transaction has its effect, or SQLite has ended the transaction. -/
theorem next_execute {t : Db Stmt S} (htx : l.tx = some t) {st : Statement Stmt}
    (hst : st ≠ .beginImmediate) {r : Except Failure Unit}
    (h : (sqlite run).Next ok (w, l) (.execute st) r (w', l')) :
    (r = .ok () ∧ inTransaction run t (w, l) st = (.ok (), (w', l'))) ∨
      ∃ e, r = .error e ∧ w' = { w with locked := false } ∧
        l' = { l with tx := none, failed := true } := by
  obtain ⟨c, hc, h⟩ := h
  have htimely := hok _ _ _ hc
  cases c with
  | ok =>
    left
    cases st with
    | beginImmediate => exact absurd rfl hst
    | plain st =>
      obtain ⟨schema, hrun⟩ := Option.isSome_iff_exists.1 (htimely t htx)
      simp only [sqlite, perform, htx, Option.map_some, inTransaction, hrun, Option.some.injEq,
        Prod.mk.injEq] at h ⊢
      exact ⟨h.1.symm, trivial, h.2⟩
    | setUserVersion version =>
      simp only [sqlite, perform, htx, Option.map_some, inTransaction, Option.some.injEq,
        Prod.mk.injEq] at h ⊢
      exact ⟨h.1.symm, trivial, h.2⟩
    | commit =>
      simp only [sqlite, perform, htx, Option.map_some, inTransaction, Option.some.injEq,
        Prod.mk.injEq] at h ⊢
      exact ⟨h.1.symm, trivial, h.2⟩
  | fail m gone =>
    right
    have hgone : gone = true := by
      cases st with
      | beginImmediate => exact absurd rfl hst
      | plain st => exact htimely
      | setUserVersion version => exact htimely
      | commit => exact htimely
    subst hgone
    cases st with
    | beginImmediate => exact absurd rfl hst
    | _ =>
      simp only [sqlite, perform, failure, htx, if_true, Option.some.injEq, Prod.mk.injEq] at h
      obtain ⟨rfl, rfl, rfl⟩ := h
      exact ⟨_, rfl, rfl, rfl⟩

end Next

/-! ## Rely and guarantee -/

/-- What the others do meanwhile: nothing while the own transaction is open, and complete migrations
otherwise. -/
structure Rely (run : Stmt → S → Option S) (migrations : List (List Stmt)) (schema₀ : S) (v₀ : Int)
    (l : Conn Stmt S) (w w' : Store Stmt S) : Prop where
  own : l.tx ≠ none → w' = w
  complete : Complete run migrations schema₀ v₀ w.db → Complete run migrations schema₀ v₀ w'.db
  version : w.db.version ≤ w'.db.version

theorem isRely_rely : IsRely (Rely run migrations schema₀ v₀) where
  refl _ _ := ⟨fun _ => rfl, id, Int.le_refl _⟩
  trans h h' := ⟨fun hl => (h'.own hl).trans (h.own hl), fun hc => h'.complete (h.complete hc),
    Int.le_trans h.version h'.version⟩

/-- What a caller is told is true: the last version is stored, or a statement has failed. -/
def Reported (migrations : List (List Stmt)) (w : Store Stmt S) (l : Conn Stmt S) :
    Except Failure Int → Prop
  | .ok version => version = migrations.length ∧ w.db.version = migrations.length
  | .error _ => l.failed = true

def guard (run : Stmt → S → Option S) (migrations : List (List Stmt)) (schema₀ : S) (v₀ : Int) :
    Guard (Action Stmt) (Store Stmt S) (Conn Stmt S) := fun w l {_} a =>
  match a with
  | .userVersion => l.tx = none
  | .commitOpen => l.tx = none ∧ l.outcome = none
  | .execute .beginImmediate => l.tx = none ∧ l.outcome = none
  | .execute (.plain _) => l.tx ≠ none ∧ l.outcome = none
  | .execute (.setUserVersion _) => l.tx ≠ none ∧ l.outcome = none
  | .execute .commit =>
    (∃ t, l.tx = some t ∧ Complete run migrations schema₀ v₀ t ∧ w.db.version ≤ t.version) ∧
      l.outcome = none
  | .report out => l.tx = none ∧ Reported migrations w l out

/-- What a step of a connection can do. -/
inductive Does (run : Stmt → S → Option S) (migrations : List (List Stmt)) (schema₀ : S) (v₀ : Int)
    (w : Store Stmt S) (l : Conn Stmt S) : Store Stmt S → Conn Stmt S → Prop
  | own (l' : Conn Stmt S) : (l'.tx ≠ none ↔ l.tx ≠ none) →
      (∀ out, l'.outcome = some out → l'.tx = none ∧ Reported migrations w l' out) →
        Does run migrations schema₀ v₀ w l w l'
  | begin_ (l' : Conn Stmt S) : w.locked = false → l'.tx ≠ none → l'.outcome = none →
      Does run migrations schema₀ v₀ w l { w with locked := true } l'
  | commit (t : Db Stmt S) (l' : Conn Stmt S) : l.tx ≠ none → Complete run migrations schema₀ v₀ t →
      w.db.version ≤ t.version →
      l'.tx = none → l'.outcome = none → Does run migrations schema₀ v₀ w l ⟨t, false⟩ l'
  | rolledBack (l' : Conn Stmt S) : l.tx ≠ none → l'.tx = none → l'.outcome = none →
      Does run migrations schema₀ v₀ w l { w with locked := false } l'

section Steps
variable {ok : Allow (Action Stmt) Choice (State Stmt S)} {w w' : Store Stmt S} {l l' : Conn Stmt S}

theorem does_of_next (hok : ∀ c {β : Type} (a : Action Stmt β) s, ok c a s → Timely run c a s)
    {β : Type} {a : Action Stmt β} {r : Except Failure β}
    (hg : guard run migrations schema₀ v₀ w l a) (hn : (sqlite run).Next ok (w, l) a r (w', l')) :
    Does run migrations schema₀ v₀ w l w' l' := by
  have hinTx : ∀ {st : Statement Stmt} {r : Except Failure Unit}, st ≠ .beginImmediate →
      st ≠ .commit → l.tx ≠ none → l.outcome = none →
      (sqlite run).Next ok (w, l) (.execute st) r (w', l') →
      Does run migrations schema₀ v₀ w l w' l' := by
    intro st r hst hcommit htx hout hn
    obtain ⟨t, ht⟩ := Option.ne_none_iff_exists'.1 htx
    rcases next_execute hok ht hst hn with ⟨-, hdone⟩ | ⟨e, -, rfl, rfl⟩
    · cases st with
      | beginImmediate => exact absurd rfl hst
      | commit => exact absurd rfl hcommit
      | plain st =>
        simp only [inTransaction] at hdone
        split at hdone
        · simp only [Prod.mk.injEq, true_and] at hdone
          obtain ⟨rfl, rfl⟩ := hdone
          exact .own _ (by simp [htx]) (by simp [hout])
        · simp at hdone
      | setUserVersion version =>
        simp only [inTransaction, Prod.mk.injEq, true_and] at hdone
        obtain ⟨rfl, rfl⟩ := hdone
        exact .own _ (by simp [htx]) (by simp [hout])
    · exact .rolledBack _ htx rfl hout
  cases a with
  | userVersion =>
    obtain ⟨rfl, htx, hout, -⟩ := next_userVersion hg hn
    exact .own l' (by simp [htx, show l.tx = none from hg]) (by simp [hout])
  | commitOpen =>
    obtain ⟨-, rfl, rfl⟩ := next_commitOpen hg.1 hn
    exact .own l' Iff.rfl (by simp [hg.2])
  | report out =>
    obtain ⟨-, rfl, rfl⟩ := next_report hn
    refine .own _ Iff.rfl fun out' hout => ?_
    obtain rfl := Option.some.inj hout
    exact ⟨hg.1, by cases out <;> exact hg.2⟩
  | execute st =>
    cases st with
    | beginImmediate =>
      rcases next_begin hok hg.1 hn with ⟨-, -, hfree, rfl, rfl⟩ | ⟨e, -, rfl, rfl⟩
      · exact .begin_ _ hfree (by simp) hg.2
      · exact .own _ Iff.rfl (by simp [hg.2])
    | plain st => exact hinTx (by simp) (by simp) hg.1 hg.2 hn
    | setUserVersion version => exact hinTx (by simp) (by simp) hg.1 hg.2 hn
    | commit =>
      obtain ⟨⟨t, htx, hcomplete, hle⟩, hout⟩ := hg
      rcases next_execute hok htx (by simp) hn with ⟨-, hdone⟩ | ⟨e, -, rfl, rfl⟩
      · simp only [inTransaction, commitTx, Prod.mk.injEq, true_and] at hdone
        obtain ⟨rfl, rfl⟩ := hdone
        exact .commit t _ (by simp [htx]) hcomplete hle rfl hout
      · exact .rolledBack _ (by simp [htx]) rfl hout

end Steps

/-- The invariant of all connections: a complete database, one transaction at a time, and true
reports. -/
structure Global (run : Stmt → S → Option S) (migrations : List (List Stmt)) (schema₀ : S)
    (v₀ : Int) (w : Store Stmt S) (ls : ι → Conn Stmt S) : Prop where
  complete : Complete run migrations schema₀ v₀ w.db
  tx : ∀ i j, (ls i).tx ≠ none → (ls j).tx ≠ none → i = j
  locked : w.locked = true ↔ ∃ i, (ls i).tx ≠ none
  reported : ∀ i out, (ls i).outcome = some out → (ls i).tx = none ∧
    Reported migrations w (ls i) out

section Global
variable [DecidableEq ι] {w w' : Store Stmt S} {ls : ι → Conn Stmt S} {i : ι} {l' : Conn Stmt S}

/-- What is true of a report stays true. -/
theorem Reported.mono {l : Conn Stmt S} {out : Except Failure Int} (h : Reported migrations w l out)
    (hc : Complete run migrations schema₀ v₀ w'.db) (hle : w.db.version ≤ w'.db.version) :
    Reported migrations w' l out := by
  cases out with
  | error e => exact h
  | ok version =>
    obtain ⟨hv, hstored⟩ := h
    have := hc.upper
    exact ⟨hv, by omega⟩

theorem Global.does (h : Global run migrations schema₀ v₀ w ls)
    (hd : Does run migrations schema₀ v₀ w (ls i) w' l') :
    Global run migrations schema₀ v₀ w' (Function.update ls i l') ∧
      ∀ j, j ≠ i → Rely run migrations schema₀ v₀ (ls j) w w' := by
  have hself : Function.update ls i l' i = l' := Function.update_self ..
  have hother : ∀ {j}, j ≠ i → Function.update ls i l' j = ls j :=
    fun hj => Function.update_of_ne hj ..
  have hlone : (ls i).tx ≠ none → ∀ j, j ≠ i → (ls j).tx = none := by
    intro hi j hj
    by_contra hne
    exact hj (h.tx j i hne hi)
  cases hd with
  | own l' htx hout =>
    have hiff : ∀ j, (Function.update ls i l' j).tx ≠ none ↔ (ls j).tx ≠ none := by
      intro j
      by_cases hj : j = i
      · rw [hj, hself, htx]
      · rw [hother hj]
    refine ⟨⟨h.complete, fun j k hj hk => h.tx j k ((hiff j).1 hj) ((hiff k).1 hk), ?_, ?_⟩,
      fun j _ => isRely_rely.refl _ _⟩
    · simp only [hiff]
      exact h.locked
    intro j out ho
    by_cases hj : j = i
    · subst hj
      rw [hself] at ho ⊢
      exact hout out ho
    · rw [hother hj] at ho ⊢
      exact h.reported j out ho
  | begin_ l' hfree htx' hout =>
    have hnone : ∀ j, (ls j).tx = none := by
      intro j
      by_contra hne
      rw [h.locked.2 ⟨j, hne⟩] at hfree
      simp at hfree
    have honly : ∀ j, (Function.update ls i l' j).tx ≠ none → j = i := by
      intro j hj
      by_contra hne
      rw [hother hne] at hj
      exact hj (hnone j)
    refine ⟨⟨h.complete, fun j k hj hk => (honly j hj).trans (honly k hk).symm,
      ⟨fun _ => ⟨i, by rwa [hself]⟩, fun _ => rfl⟩, ?_⟩,
      fun j _ => ⟨fun hj => absurd (hnone j) hj, id, Int.le_refl _⟩⟩
    intro j out ho
    by_cases hj : j = i
    · subst hj
      rw [hself, hout] at ho
      simp at ho
    · rw [hother hj] at ho ⊢
      exact h.reported j out ho
  | commit t l' htx hcomplete hle htx' hout =>
    have hnone : ∀ j, (Function.update ls i l' j).tx = none := by
      intro j
      by_cases hj : j = i
      · rw [hj, hself, htx']
      · rw [hother hj]
        exact hlone htx j hj
    refine ⟨⟨hcomplete, fun j _ hj => absurd (hnone j) hj, by simp [hnone], ?_⟩,
      fun j hj => ⟨fun hne => absurd (hlone htx j hj) hne, fun _ => hcomplete, hle⟩⟩
    intro j out ho
    by_cases hj : j = i
    · subst hj
      rw [hself, hout] at ho
      simp at ho
    · rw [hother hj] at ho ⊢
      obtain ⟨hn, hr⟩ := h.reported j out ho
      exact ⟨hn, hr.mono hcomplete hle⟩
  | rolledBack l' htx htx' hout =>
    have hnone : ∀ j, (Function.update ls i l' j).tx = none := by
      intro j
      by_cases hj : j = i
      · rw [hj, hself, htx']
      · rw [hother hj]
        exact hlone htx j hj
    refine ⟨⟨h.complete, fun j _ hj => absurd (hnone j) hj, by simp [hnone], ?_⟩,
      fun j hj => ⟨fun hne => absurd (hlone htx j hj) hne, id, Int.le_refl _⟩⟩
    intro j out ho
    by_cases hj : j = i
    · subst hj
      rw [hself, hout] at ho
      simp at ho
    · rw [hother hj] at ho ⊢
      obtain ⟨hn, hr⟩ := h.reported j out ho
      exact ⟨hn, hr.mono (w := w) h.complete (Int.le_refl _)⟩

end Global

/-! ## The code -/

section Code
variable {ok : Allow (Action Stmt) Choice (State Stmt S)}

/-- Nothing of a call is left over. -/
def Idle (run : Stmt → S → Option S) (migrations : List (List Stmt)) (schema₀ : S) (v₀ : Int)
    (w : Store Stmt S) (l : Conn Stmt S) :
    Prop := l.tx = none ∧ Complete run migrations schema₀ v₀ w.db

/-- The loop at `version`. -/
structure Turn (run : Stmt → S → Option S) (migrations : List (List Stmt)) (schema₀ : S)
    (v₀ version : Int) (w : Store Stmt S) (l : Conn Stmt S) : Prop where
  idle : Idle run migrations schema₀ v₀ w l
  outcome : l.outcome = none
  seen : l.seen = version
  stored : version ≤ w.db.version
  lower : v₀ ≤ version

/-- The statements `pre` of a script have run on the database `D`. -/
structure Within (run : Stmt → S → Option S) (migrations : List (List Stmt)) (schema₀ : S)
    (v₀ : Int) (D : Db Stmt S) (pre : List Stmt) (version : Int) (w : Store Stmt S)
    (l : Conn Stmt S) : Prop where
  db : w.db = D
  complete : Complete run migrations schema₀ v₀ D
  outcome : l.outcome = none
  tx : ∃ schema, after run D.schema pre = some schema ∧ l.tx = some ⟨schema, version, D.ran ++ pre⟩

/-- `migrate` raises. -/
def Raised (run : Stmt → S → Option S) (migrations : List (List Stmt)) (schema₀ : S) (v₀ : Int)
    (_ : Failure) (w : Store Stmt S) (l : Conn Stmt S) : Prop :=
  Idle run migrations schema₀ v₀ w l ∧ l.outcome = none ∧ l.failed = true

/-- It returns. -/
def Returned (run : Stmt → S → Option S) (migrations : List (List Stmt)) (schema₀ : S)
    (v₀ version : Int) (w : Store Stmt S) (l : Conn Stmt S) : Prop :=
  Idle run migrations schema₀ v₀ w l ∧ l.outcome = none ∧ version = migrations.length ∧
    w.db.version = migrations.length

theorem Idle.stable {w w' : Store Stmt S} {l : Conn Stmt S}
    (hr : Rely run migrations schema₀ v₀ l w w') (h : Idle run migrations schema₀ v₀ w l) :
    Idle run migrations schema₀ v₀ w' l := ⟨h.1, hr.complete h.2⟩

theorem Turn.stable {version : Int} {w w' : Store Stmt S} {l : Conn Stmt S}
    (hr : Rely run migrations schema₀ v₀ l w w') (h : Turn run migrations schema₀ v₀ version w l) :
    Turn run migrations schema₀ v₀ version w' l :=
  ⟨h.idle.stable hr, h.outcome, h.seen, Int.le_trans h.stored hr.version, h.lower⟩

theorem Within.stable {D : Db Stmt S} {pre : List Stmt} {version : Int} {w w' : Store Stmt S}
    {l : Conn Stmt S} (hr : Rely run migrations schema₀ v₀ l w w')
    (h : Within run migrations schema₀ v₀ D pre version w l) :
    Within run migrations schema₀ v₀ D pre version w' l := by
  obtain ⟨schema, -, htx⟩ := h.tx
  rw [hr.own (by simp [htx])]
  exact h

theorem Raised.stable {e : Failure} {w w' : Store Stmt S} {l : Conn Stmt S}
    (hr : Rely run migrations schema₀ v₀ l w w') (h : Raised run migrations schema₀ v₀ e w l) :
    Raised run migrations schema₀ v₀ e w' l := ⟨h.1.stable hr, h.2⟩

theorem Returned.stable {version : Int} {w w' : Store Stmt S} {l : Conn Stmt S}
    (hr : Rely run migrations schema₀ v₀ l w w')
    (h : Returned run migrations schema₀ v₀ version w l) :
    Returned run migrations schema₀ v₀ version w' l := by
  have hle := hr.version
  have hup := (hr.complete h.1.2).upper
  exact ⟨h.1.stable hr, h.2.1, h.2.2.1, by have := h.2.2.2; omega⟩

theorem safe_report {out : Except Failure Int} {w : Store Stmt S} {l : Conn Stmt S}
    (hend : ∀ w₁, Rely run migrations schema₀ v₀ l w w₁ → Idle run migrations schema₀ v₀ w₁ l ∧
      Reported migrations w₁ l out) :
    Safe (sqlite run) ok (Rely run migrations schema₀ v₀) (guard run migrations schema₀ v₀)
      (post (fun _ => Idle run migrations schema₀ v₀) fun _ _ _ => False)
        (.call (.report out)) w l := by
  refine Safe.callStable (StableQ.post (fun _ _ _ _ hr h => h.stable hr) fun _ _ _ _ _ h => h)
    fun w₁ h₁ => ?_
  obtain ⟨hidle, hreported⟩ := hend w₁ h₁
  refine ⟨⟨hidle.1, hreported⟩, fun r w₂ l₂ hn => ?_⟩
  obtain ⟨rfl, rfl, rfl⟩ := next_report hn
  exact hidle

variable (hok : ∀ c {β : Type} (a : Action Stmt β) s, ok c a s → Timely run c a s)
include hok

/-- A statement that keeps the transaction open. -/
theorem safe_within {D : Db Stmt S} {pre pre' : List Stmt} {version version' : Int}
    {st : Statement Stmt}
    (hst : (∃ x, st = .plain x ∧ pre' = pre ++ [x] ∧ version' = version) ∨
      st = .setUserVersion version' ∧ pre' = pre)
    {w : Store Stmt S} {l : Conn Stmt S} (h : Within run migrations schema₀ v₀ D pre version w l) :
    Safe (sqlite run) ok (Rely run migrations schema₀ v₀) (guard run migrations schema₀ v₀)
      (post (fun _ w l => Within run migrations schema₀ v₀ D pre' version' w l ∧
        (st = .setUserVersion version' → l.seen = version'))
        (Raised run migrations schema₀ v₀)) (.call (.execute st)) w l := by
  refine Safe.callStable
    (StableQ.post (fun _ _ _ _ hr h => ⟨h.1.stable hr, h.2⟩) fun _ _ _ _ hr h => h.stable hr)
    fun w₁ h₁ => ?_
  have h := h.stable h₁
  obtain ⟨schema, hschema, htx⟩ := h.tx
  have hbegin : st ≠ .beginImmediate := by
    rcases hst with ⟨x, rfl, -, -⟩ | ⟨rfl, -⟩
    · simp
    · simp
  refine ⟨?_, fun r w₂ l₂ hn => ?_⟩
  · rcases hst with ⟨x, rfl, -, -⟩ | ⟨rfl, -⟩
    · exact ⟨by simp [htx], h.outcome⟩
    · exact ⟨by simp [htx], h.outcome⟩
  rcases next_execute hok htx hbegin hn with ⟨rfl, hdone⟩ | ⟨e, rfl, rfl, rfl⟩
  · rcases hst with ⟨x, rfl, rfl, rfl⟩ | ⟨rfl, rfl⟩
    · simp only [inTransaction] at hdone
      split at hdone
      · rename_i schema' hrun
        simp only [Prod.mk.injEq, true_and] at hdone
        obtain ⟨rfl, rfl⟩ := hdone
        refine ⟨⟨h.db, h.complete, h.outcome, schema', ?_, by simp⟩, by simp⟩
        rw [after_append, hschema]
        simpa [after] using hrun
      · simp at hdone
    · simp only [inTransaction, Prod.mk.injEq, true_and] at hdone
      obtain ⟨rfl, rfl⟩ := hdone
      exact ⟨⟨h.db, h.complete, h.outcome, schema, hschema, rfl⟩, fun _ => rfl⟩
  · exact ⟨⟨rfl, by rw [h.db]; exact h.complete⟩, h.outcome, rfl⟩

/-- One script, from BEGIN IMMEDIATE to COMMIT. -/
theorem safe_executescript (h₀ : 0 ≤ v₀) {version : Int} {script : List Stmt}
    (hitem : item migrations version = some script) (hlt : version < migrations.length)
    {w : Store Stmt S} {l : Conn Stmt S} (h : Turn run migrations schema₀ v₀ version w l) :
    Safe (sqlite run) ok (Rely run migrations schema₀ v₀) (guard run migrations schema₀ v₀)
      (post (fun _ => Turn run migrations schema₀ v₀ (version + 1))
        (Raised run migrations schema₀ v₀))
      (executescript (statements script (version + 1))) w l := by
  have hR : IsRely (Rely run migrations schema₀ v₀) := isRely_rely
  have hQ : StableQ (Rely run migrations schema₀ v₀)
      (post (fun (_ : Unit) => Turn run migrations schema₀ v₀ (version + 1))
        (Raised run migrations schema₀ v₀)) :=
    StableQ.post (fun _ _ _ _ hr h => h.stable hr) fun _ _ _ _ hr h => h.stable hr
  -- No transaction is open, so there is nothing to commit.
  refine Safe.callThen hR hQ fun w₁ h₁ => ⟨⟨h.idle.1, h.outcome⟩, fun r w₂ l₂ hn => ?_⟩
  obtain ⟨rfl, rfl, rfl⟩ := next_commitOpen h.idle.1 hn
  have h := h.stable h₁
  -- BEGIN IMMEDIATE
  refine Safe.callThen hR hQ fun w₃ h₃ => ⟨⟨h.idle.1, h.outcome⟩, fun r w₄ l₄ hn => ?_⟩
  have h := h.stable h₃
  rcases next_begin hok h.idle.1 hn with ⟨rfl, hseen, -, rfl, rfl⟩ | ⟨e, rfl, rfl, rfl⟩
  swap
  · exact ⟨h.idle, h.outcome, rfl⟩
  have hversion : w₃.db.version = version := hseen.trans h.seen
  have hfirst : Within run migrations schema₀ v₀ w₃.db [] version { w₃ with locked := true }
      { l₂ with tx := some w₃.db } :=
    ⟨rfl, h.idle.2, h.outcome, w₃.db.schema, rfl, by simp [← hversion]⟩
  show Safe _ _ _ _ _ ((script.map Statement.plain ++
      [Statement.setUserVersion (version + 1), Statement.commit]).forM
    fun s => (Prog.call (Action.execute s) : P Stmt Unit)) _ _
  rw [List.forM_eq_forM, List.forM_append, List.forM_map, Prog.bind_eq]
  -- The statements of the script.
  refine Safe.seq hR (K := fun _ => Within run migrations schema₀ v₀ w₃.db script version) ?_ fun _
    w₅ l₅ h₅ => ?_
  · refine Safe.forM hR (I := fun pre => Within run migrations schema₀ v₀ w₃.db pre version)
      (fun _ _ _ _ hr h => h.stable hr) (fun pre x _ _ w l h => ?_) hfirst
    exact (safe_within hok (.inl ⟨x, rfl, rfl, rfl⟩) h).mono fun out _ _ h => by
      cases out with
      | ok a => exact h.1
      | error e => exact h
  -- The version, and COMMIT.
  refine Safe.seq hR (safe_within hok (.inr ⟨rfl, rfl⟩) h₅) fun _ w₆ l₆ h₆ => ?_
  refine Safe.seq hR (Safe.callStable hQ fun w₇ h₇ => ?_) fun _ _ _ h => Safe.retStable hQ h
  obtain ⟨hwithin, hseen⟩ := h₆
  have hwithin := hwithin.stable h₇
  obtain ⟨schema, hschema, htx⟩ := hwithin.tx
  have hnext := hwithin.complete.next h₀ (hversion ▸ hitem) (hversion ▸ hlt) hschema
  rw [hversion] at hnext
  refine ⟨⟨⟨_, htx, hnext, ?_⟩, hwithin.outcome⟩, fun r w₈ l₈ hn => ?_⟩
  · rw [hwithin.db, hversion]
    show version ≤ version + 1
    omega
  rcases next_execute hok htx (by simp) hn with ⟨rfl, hdone⟩ | ⟨e, rfl, rfl, rfl⟩
  · simp only [inTransaction, commitTx, Prod.mk.injEq, true_and] at hdone
    obtain ⟨rfl, rfl⟩ := hdone
    have := h.lower
    exact ⟨⟨rfl, hnext⟩, hwithin.outcome, hseen rfl, Int.le_refl _, by omega⟩
  · exact ⟨⟨rfl, by rw [hwithin.db]; exact hwithin.complete⟩, hwithin.outcome, rfl⟩

theorem safe_upgrade (h₀ : 0 ≤ v₀) : ∀ (k : Nat) (version : Int), version + k = migrations.length →
    ∀ (w : Store Stmt S) (l : Conn Stmt S), Turn run migrations schema₀ v₀ version w l →
      Safe (sqlite run) ok (Rely run migrations schema₀ v₀) (guard run migrations schema₀ v₀)
        (post (Returned run migrations schema₀ v₀) (Raised run migrations schema₀ v₀))
          (upgrade migrations k version) w l
  | 0, version, hk, w, l, h => by
    refine Safe.ret fun w₁ h₁ => ?_
    have h := h.stable h₁
    have hle := h.stored
    have hup := h.idle.2.upper
    exact ⟨h.idle, h.outcome, by omega, by omega⟩
  | k + 1, version, hk, w, l, h => by
    have hlt : version < migrations.length := by omega
    obtain ⟨script, hitem⟩ := item_lt (Int.le_trans h₀ h.lower) hlt
    rw [upgrade, hitem]
    exact Safe.seq isRely_rely (safe_executescript hok h₀ hitem hlt h) fun _ w₁ l₁ h₁ =>
      safe_upgrade h₀ k (version + 1) (by omega) w₁ l₁ h₁

theorem safe_migrate (h₀ : 0 ≤ v₀) {w : Store Stmt S} {l : Conn Stmt S}
    (h : Idle run migrations schema₀ v₀ w l) :
    Safe (sqlite run) ok (Rely run migrations schema₀ v₀) (guard run migrations schema₀ v₀)
      (post (Returned run migrations schema₀ v₀) (Raised run migrations schema₀ v₀))
        (migrate migrations) w l := by
  have hQ : StableQ (Rely run migrations schema₀ v₀)
      (post (Returned run migrations schema₀ v₀) (Raised run migrations schema₀ v₀)) :=
    StableQ.post (fun _ _ _ _ hr h => h.stable hr) fun _ _ _ _ hr h => h.stable hr
  refine Safe.callThen isRely_rely hQ fun w₁ h₁ => ⟨h.1, fun r w₂ l₂ hn => ?_⟩
  have h := h.stable h₁
  obtain ⟨rfl, htx, hout, ⟨rfl, hseen⟩ | ⟨e, rfl, hfailed⟩⟩ := next_userVersion h.1 hn
  · have hlower := h.2.lower
    have hupper := h.2.upper
    have hnot : ¬ w₂.db.version > migrations.length := by omega
    simp only [thenSafe, if_neg hnot]
    exact safe_upgrade hok h₀ _ _ (by omega) _ _ ⟨⟨htx, h.2⟩, hout, hseen, Int.le_refl _, hlower⟩
  · exact ⟨⟨htx, h.2⟩, hout, hfailed⟩

theorem safe_call (h₀ : 0 ≤ v₀) {w : Store Stmt S} {l : Conn Stmt S}
    (h : Idle run migrations schema₀ v₀ w l) :
    Safe (sqlite run) ok (Rely run migrations schema₀ v₀) (guard run migrations schema₀ v₀)
      (fun _ => Idle run migrations schema₀ v₀) (call migrations) w l := by
  refine Safe.handle isRely_rely (E := Raised run migrations schema₀ v₀) ?_ fun e w₁ l₁ h₁ => ?_
  · refine Safe.bind isRely_rely ((safe_migrate hok h₀ h).mono fun out w₁ l₁ h₁ => ?_)
    cases out with
    | ok version =>
      refine (safe_report fun w₂ h₂ => ?_).mono fun out w₂ l₂ hend => ?_
      · have h₂ := Returned.stable h₂ h₁
        exact ⟨h₂.1, h₂.2.2⟩
      · cases out with
        | ok _ => exact hend
        | error e => exact hend.elim
    | error e => exact h₁
  · refine (safe_report fun w₂ h₂ => ?_).mono fun out w₂ l₂ hend => ?_
    · have h₂ := Raised.stable h₂ h₁
      exact ⟨h₂.1, h₂.2.2⟩
    · cases out with
      | ok _ => exact hend
      | error e => exact hend.elim

theorem composes [DecidableEq ι] (mayStop : Prop) (h₀ : 0 ≤ v₀) :
    System.Composes (system run migrations) ok mayStop (Rely run migrations schema₀ v₀)
      (fun _ => guard run migrations schema₀ v₀)
      (Idle run migrations schema₀ v₀) (Global (ι := ι) run migrations schema₀ v₀) where
  rely := isRely_rely
  idle _ _ _ hr h := h.stable hr
  safe _ _ _ h := safe_call hok h₀ h
  act _ _ _ _ _ _ _ _ _ hJ hg hn := hJ.does (does_of_next hok hg hn)
  stop _ w ls i hJ := by
    have hclose : ∀ l : Conn Stmt S, (close (w, l)).2 = ⟨none, 0, false, none⟩ := fun _ => rfl
    have hd : Does run migrations schema₀ v₀ w (ls i) (close (w, ls i)).1 (close (w, ls i)).2 := by
      cases htx : (ls i).tx with
      | none =>
        simp only [close, htx]
        exact .own _ (by simp [htx]) (by simp)
      | some t =>
        simp only [close, htx]
        exact .rolledBack _ (by simp [htx]) rfl rfl
    obtain ⟨hglobal, hothers⟩ := hJ.does hd
    exact ⟨hglobal, hothers, rfl, hglobal.complete⟩

end Code

/-- A guarded action can be taken, unless it waits for the lock. -/
theorem guard_goesOn {w : Store Stmt S} {l : Conn Stmt S} {β : Type} {a : Action Stmt β}
    (hg : guard run migrations schema₀ v₀ w l a) (hwait : l.tx ≠ none ∨ w.locked = false) :
    (perform run .ok a (w, l)).isSome := by
  cases a with
  | userVersion => rfl
  | commitOpen => rfl
  | report out => rfl
  | execute st =>
    cases htx : l.tx with
    | some t => cases st <;> simp [perform, htx]
    | none =>
      cases st with
      | beginImmediate => simp [perform, htx, hwait.resolve_left (not_not.2 htx)]
      | plain st => exact absurd htx hg.1
      | setUserVersion version => exact absurd htx hg.1
      | commit =>
        obtain ⟨⟨t, ht, -⟩, -⟩ := hg
        simp [htx] at ht

/-- Any number of connections call `migrate` in any order of steps, with failures and stops. If
every step is timely, the scripts from the stored version up to the present one have run, once and
in order; a call that returned was told the last version, and it is stored; a call raised only
because a statement failed; outside a call no transaction is open; and as long as a call is not
over, some call can go on. -/
theorem migrations_once [DecidableEq ι] (run : Stmt → S → Option S) (migrations : List (List Stmt))
    (schema₀ : S) (v₀ : Int) (h₀ : 0 ≤ v₀) (hle : v₀ ≤ migrations.length)
    (ok : Allow (Action Stmt) Choice (State Stmt S))
    (hok : ∀ c {β : Type} (a : Action Stmt β) s, ok c a s → Timely run c a s) (mayStop : Prop)
    (c : Configuration ι Unit (Action Stmt) Failure (Store Stmt S) (Conn Stmt S))
    (hr : (system run migrations).Reachable ok mayStop (opened schema₀ v₀) c) :
    Complete run migrations schema₀ v₀ c.shared.db ∧
    (∀ i version, (c.own i).outcome = some (.ok version) →
      version = migrations.length ∧ c.shared.db.version = migrations.length) ∧
    (∀ i e, (c.own i).outcome = some (.error e) → (c.own i).failed = true) ∧
    (∀ i, c.running i = none ∨ (c.own i).outcome ≠ none → (c.own i).tx = none) ∧
    ∀ i op (β : Type) (a : Action Stmt β) k, c.running i = some (op, .act a k) →
      ∃ j op' β', ∃ (b : Action Stmt β') (k' : _), c.running j = some (op', .act b k') ∧
        (perform run .ok b (c.shared, c.own j)).isSome := by
  have hstart : Complete run migrations schema₀ v₀ ⟨schema₀, v₀, []⟩ :=
    ⟨Int.le_refl _, hle, by simp [scripts], rfl⟩
  have hopened : System.Good (system run migrations) ok (Rely run migrations schema₀ v₀)
      (fun _ => guard run migrations schema₀ v₀)
      (Idle run migrations schema₀ v₀) (Global (ι := ι) run migrations schema₀ v₀)
      (opened schema₀ v₀) := by
    refine ⟨⟨hstart, by simp [opened], by simp [opened], by simp [opened]⟩, fun i => ?_⟩
    show Idle run migrations schema₀ v₀ ⟨⟨schema₀, v₀, []⟩, false⟩ ⟨none, 0, false, none⟩
    exact ⟨rfl, hstart⟩
  have hgood := System.invariant (composes (ι := ι) hok mayStop h₀) hopened hr
  refine ⟨hgood.global.complete, fun i version h => (hgood.global.reported i _ h).2, fun i e h =>
    (hgood.global.reported i _ h).2, fun i h => ?_, fun i op β a k hi => ?_⟩
  · rcases h with hidle | hout
    · have hi := hgood.sound i
      rw [hidle] at hi
      exact hi.1
    · obtain ⟨out, hout⟩ := Option.ne_none_iff_exists'.1 hout
      exact (hgood.global.reported i out hout).1
  · cases hlocked : c.shared.locked with
    | false => exact ⟨i, op, β, a, k, hi, guard_goesOn (hgood.guard isRely_rely hi) (.inr hlocked)⟩
    | true =>
      -- The holder of the lock does not wait.
      obtain ⟨j, hj⟩ := hgood.global.locked.1 hlocked
      have hs := hgood.sound j
      cases hrun : c.running j with
      | none =>
        rw [hrun] at hs
        exact absurd hs.1 hj
      | some x =>
        obtain ⟨op', p⟩ := x
        rw [hrun] at hs
        cases p with
        | ret _ => exact absurd (hs _ (isRely_rely.refl _ _)).1 hj
        | raise _ => exact absurd (hs _ (isRely_rely.refl _ _)).1 hj
        | act b k' =>
          exact ⟨j, op', _, b, k', hrun, guard_goesOn (hgood.guard isRely_rely hrun) (.inl hj)⟩

/-! ## Two connections -/

/-- Statements on the tables and rows that there are. -/
inductive SampleStatement where
  | createTable (name : String)
  | insert (value : Int)
deriving DecidableEq, Repr

def sampleRun : SampleStatement → List String × List Int → Option (List String × List Int)
  | .createTable name, (tables, rows) =>
    if name ∈ tables then none else some (tables ++ [name], rows)
  | .insert value, (tables, rows) => some (tables, rows ++ [value])

/-- Timely steps without failures. -/
def punctual (run : Stmt → S → Option S) (c : Choice) {β : Type} (a : Action Stmt β)
    (s : State Stmt S) : Bool :=
  match a, c with
  | .execute .beginImmediate, .ok => decide (s.1.db.version = s.2.seen)
  | .execute (.plain st), .ok => s.2.tx.all fun t => (run st t.schema).isSome
  | _, .ok => true
  | _, .fail _ _ => false

theorem timely_punctual {c : Choice} {β : Type} {a : Action Stmt β} {s : State Stmt S}
    (h : punctual run c a s = true) : Timely run c a s := by
  cases c with
  | fail m gone =>
    cases a with
    | execute st => cases st <;> simp [punctual] at h
    | _ => simp [punctual] at h
  | ok =>
    cases a with
    | execute st =>
      cases st with
      | beginImmediate =>
        show s.1.db.version = s.2.seen
        simpa [punctual] using h
      | plain st =>
        intro t ht
        simp only [punctual, ht, Option.all_some] at h
        exact h
      | setUserVersion version => trivial
      | commit => trivial
    | _ => trivial

/-- Nothing fails from outside. -/
def noFailure (c : Choice) {β : Type} (_ : Action Stmt β) (_ : State Stmt S) : Bool :=
  decide (c = .ok)

/-- `n` successful steps of one connection. -/
def steps (i n : Nat) : List (Nat × System.Turn Unit Choice) := List.replicate n (i, .act .ok)

/-- One connection migrates, the other one opens the database afterwards. -/
def inTurn : List (Nat × System.Turn Unit Choice) :=
  (0, .start ()) :: steps 0 7 ++ (1, .start ()) :: steps 1 2

theorem inTurn_runs :
    ((system sampleRun [[.createTable "shards"]]).run (punctual sampleRun) inTurn
      (opened ([], []) 0)).map
      (fun c => (c.own 1).outcome) = some (some (.ok 1)) := by decide +kernel

theorem migrations_once_inTurn : ∃ c : Configuration Nat Unit (Action SampleStatement) Failure
    (Store SampleStatement (List String × List Int))
      (Conn SampleStatement (List String × List Int)),
    (c.own 1).outcome = some (.ok 1) ∧ c.shared.db.version = 1 ∧ (c.own 1).tx = none := by
  obtain ⟨c, hrun, hout⟩ := Option.map_eq_some_iff.1 inTurn_runs
  have h := migrations_once sampleRun [[.createTable "shards"]] ([], []) 0 (by decide) (by decide) _
    (fun _ {_} _ _ h => timely_punctual h) False c (System.reachable_of_run hrun)
  exact ⟨c, hout, (h.2.1 1 1 hout).2, h.2.2.2.1 1 (.inr (by simp [hout]))⟩

/-- Both read the version before either begins. -/
def race : List (Nat × System.Turn Unit Choice) :=
  [(0, .start ()), (1, .start ()), (0, .act .ok), (1, .act .ok)] ++ steps 0 6

theorem race_creates :
    ((system sampleRun [[.createTable "shards"]]).run noFailure (race ++ steps 1 4)
      (opened ([], []) 0)).map
      (fun c => ((c.own 0).outcome, (c.own 1).outcome, (c.own 1).tx.isSome, c.shared.locked)) =
        some (some (.ok 1), some (.error (.sqlite "the statement fails")), true, true) := by
  decide +kernel

theorem race_inserts :
    ((system sampleRun [[.insert 1]]).run noFailure (race ++ steps 1 6) (opened ([], []) 0)).map
      (fun c => (c.shared.db.ran, c.shared.db.version)) = some ([.insert 1, .insert 1], 1) := by
  decide +kernel

/-- Without any failure from outside, a script runs twice; and where it cannot run twice, the second
call raises with its transaction open and the lock held. -/
theorem migrations_race :
    (∃ c : Configuration Nat Unit (Action SampleStatement) Failure
      (Store SampleStatement (List String × List Int))
        (Conn SampleStatement (List String × List Int)),
      (system sampleRun [[.insert 1]]).Reachable (fun c {_} a s => noFailure c a s = true) False
        (opened ([], []) 0) c ∧
      c.shared.db.ran = [.insert 1, .insert 1]) ∧
    ∃ c : Configuration Nat Unit (Action SampleStatement) Failure
      (Store SampleStatement (List String × List Int))
        (Conn SampleStatement (List String × List Int)),
      (system sampleRun [[.createTable "shards"]]).Reachable
        (fun c {_} a s => noFailure c a s = true) False (opened ([], []) 0) c ∧
      (c.own 1).outcome = some (.error (.sqlite "the statement fails")) ∧
        (c.own 1).tx.isSome = true ∧ c.shared.locked = true := by
  obtain ⟨c, hrun, hc⟩ := Option.map_eq_some_iff.1 race_inserts
  obtain ⟨c', hrun', hc'⟩ := Option.map_eq_some_iff.1 race_creates
  obtain ⟨hran, -⟩ := Prod.mk.inj hc
  obtain ⟨-, hc'⟩ := Prod.mk.inj hc'
  obtain ⟨hout, hc'⟩ := Prod.mk.inj hc'
  obtain ⟨htx, hlocked⟩ := Prod.mk.inj hc'
  exact ⟨⟨c, System.reachable_of_run hrun, hran⟩, c', System.reachable_of_run hrun',
    hout, htx, hlocked⟩

end WebProxyPanel.Migrate
