import Mathlib.Algebra.Group.Nat.Defs
import Mathlib.Data.Finset.Card
import WebProxyPanel.CommitSpec
/-!
# Statements come to an end

`Fed m db` — with some clock readings and some random values the statements `m` run to their end;
`new_secret` may draw any number of them, but there is always a value that no slot has. `Framed m` —
inputs beyond those change nothing, which is what makes `Fed` go through sequences and loops.
`OnlyIntegrity m` — `m` raises nothing but a violated constraint.
-/

namespace WebProxyPanel
open Table

/-- Inputs one after the other. -/
def Inputs.append (i j : Inputs) : Inputs := ⟨i.times ++ j.times, i.tokens ++ j.tokens⟩

def Inputs.empty : Inputs := ⟨[], []⟩

@[simp] theorem Inputs.empty_append (i : Inputs) : Inputs.empty.append i = i := rfl

@[simp] theorem Inputs.append_tokens (i j : Inputs) : (i.append j).tokens = i.tokens ++ j.tokens :=
  rfl

/-! ## A secret that is not in use -/

/-- The 32 low bits of a number, as a value of `token_hex`. -/
def bitToken (n : Nat) : String :=
  String.ofList ((List.range 32).map fun j => if n.testBit j then 'a' else 'b')

theorem bitToken_hex (n : Nat) : isTokenHex (bitToken n) = true := by
  have hchar : ∀ c ∈ (List.range 32).map (fun j => if n.testBit j then 'a' else
      'b'), c = 'a' ∨ c = 'b' := by
    intro c hc
    obtain ⟨j, -, rfl⟩ := List.mem_map.1 hc
    split
    · exact .inl rfl
    · exact .inr rfl
  simp only [isTokenHex, bitToken, String.length_ofList, List.length_map, List.length_range,
    decide_true, Bool.true_and, String.toList_ofList, List.all_eq_true]
  intro c hc
  rcases hchar c hc with rfl | rfl
  · rfl
  · rfl

theorem bitToken_inj {m n : Nat} (hm : m < 2 ^ 32) (hn : n < 2 ^ 32) (h : bitToken m = bitToken n) :
    m = n := by
  have hl := String.ofList_injective h
  refine Nat.eq_of_testBit_eq fun j => ?_
  by_cases hj : j < 32
  · have hb := List.map_inj_left.1 hl j (List.mem_range.2 hj)
    cases h1 : m.testBit j <;> cases h2 : n.testBit j <;> simp [h1, h2] at hb ⊢
  · have hp : 2 ^ 32 ≤ 2 ^ j := Nat.pow_le_pow_right (by omega) (by omega)
    rw [Nat.testBit_lt_two_pow (by omega), Nat.testBit_lt_two_pow (by omega)]

/-- A pool is far too small to use up all values. -/
theorem exists_unused {db : DB} (h : db.slots.length < 2 ^ 31) :
    ∃ v, isTokenHex v = true ∧ secretUsed v db = false := by
  have hlen : (allSecrets db).length ≤ 2 * db.slots.length := by
    have := List.length_filterMap_le (fun s : Slot => s.pendingSecret) db.slots
    simp only [allSecrets, List.length_append, List.length_map]
    omega
  have hcard : (allSecrets db).toFinset.card < ((Finset.range (2 ^ 32)).image bitToken).card := by
    rw [Finset.card_image_of_injOn, Finset.card_range]
    · have := List.toFinset_card_le (allSecrets db)
      omega
    · intro m hm n hn
      exact bitToken_inj (Finset.mem_range.1 hm) (Finset.mem_range.1 hn)
  obtain ⟨v, hv, hnot⟩ := Finset.exists_mem_notMem_of_card_lt_card hcard
  obtain ⟨n, -, rfl⟩ := Finset.mem_image.1 hv
  exact ⟨bitToken n, bitToken_hex n, secretUsed_eq_false.2 fun hm => hnot (List.mem_toFinset.2 hm)⟩

namespace Sql
variable {α β : Type}

/-! ## What is left over -/

structure Framed (m : Sql α) : Prop where
  ok : ∀ {db inp a db' inp'} (ext : Inputs), m db inp = .ok a db' inp' →
    m db (inp.append ext) = .ok a db' (inp'.append ext)
  error : ∀ {db inp e db' inp'} (ext : Inputs), m db inp = .error e db' inp' →
    m db (inp.append ext) = .error e db' (inp'.append ext)

theorem Framed.pure (a : α) : Framed (Pure.pure a : Sql α) where
  ok ext h := by
    obtain ⟨rfl, rfl, rfl⟩ := pure_eq_ok.1 h
    rfl
  error _ h := absurd h pure_ne_error

theorem Framed.query (f : DB → α) : Framed (Sql.query f) where
  ok ext h := by
    obtain ⟨rfl, rfl, rfl⟩ := query_eq_ok.1 h
    rfl
  error _ h := absurd h query_ne_error

theorem Framed.raise (e : Err) : Framed (Sql.raise e : Sql α) where
  ok _ h := absurd h raise_ne_ok
  error ext h := by
    obtain ⟨rfl, rfl, rfl⟩ := raise_eq_error.1 h
    rfl

theorem Framed.execute (f : DB → DB) : Framed (Sql.execute f) where
  ok ext h := by
    obtain ⟨hc, rfl, rfl⟩ := execute_eq_ok.1 h
    exact execute_eq_ok.2 ⟨hc, rfl, rfl⟩
  error ext h := by
    obtain ⟨hc, rfl, rfl, rfl⟩ := execute_eq_error.1 h
    exact execute_eq_error.2 ⟨hc, rfl, rfl, rfl⟩

theorem Framed.now : Framed Sql.now where
  ok ext h := by
    obtain ⟨ht, hk, rfl⟩ := now_eq_ok.1 h
    refine now_eq_ok.2 ⟨?_, ?_, rfl⟩
    · simp [Inputs.append, ht]
    · simp [Inputs.append, hk]
  error _ h := absurd h now_ne_error

theorem Framed.bind {m : Sql α} {f : α → Sql β} (hm : Framed m) (hf : ∀ a, Framed (f a)) :
    Framed (m >>= f) where
  ok ext h := by
    obtain ⟨a, db₁, inp₁, h₁, h₂⟩ := bind_eq_ok.1 h
    exact bind_eq_ok.2 ⟨a, db₁, _, hm.ok ext h₁, (hf a).ok ext h₂⟩
  error ext h := by
    rcases bind_eq_error.1 h with h₁ | ⟨a, db₁, inp₁, h₁, h₂⟩
    · exact bind_eq_error.2 (.inl (hm.error ext h₁))
    · exact bind_eq_error.2 (.inr ⟨a, db₁, _, hm.ok ext h₁, (hf a).error ext h₂⟩)

theorem firstUnused_ok {db db' : DB} {v : String} {times : List Int} {inp' : Inputs}
    (ext : Inputs) :
    ∀ {tokens : List String}, firstUnused db times tokens = .ok v db' inp' →
      firstUnused db (times ++ ext.times) (tokens ++ ext.tokens) = .ok v db' (inp'.append ext)
  | [], h => by simp [firstUnused] at h
  | t :: ts, h => by
    simp only [firstUnused, List.cons_append] at h ⊢
    split at h
    · rename_i hu
      rw [if_pos hu]
      exact firstUnused_ok ext h
    · rename_i hu
      rw [if_neg hu]
      simp only [Res.ok.injEq] at h
      obtain ⟨rfl, rfl, rfl⟩ := h
      rfl

theorem firstUnused_ne_error {db db' : DB} {e : Err} {times : List Int} {inp' : Inputs} :
    ∀ {tokens : List String}, firstUnused db times tokens ≠ .error e db' inp'
  | [] => by simp [firstUnused]
  | t :: ts => by
    simp only [firstUnused]
    split
    · exact firstUnused_ne_error
    · simp

theorem Framed.newSecret : Framed newSecret where
  ok ext h := firstUnused_ok ext h
  error _ h := absurd h firstUnused_ne_error

theorem Framed.forM {ι : Type} {f : ι → Sql PUnit} (hf : ∀ x, Framed (f x)) :
    ∀ xs : List ι, Framed (xs.forM f)
  | [] => .pure _
  | x :: xs => .bind (hf x) fun _ => Framed.forM hf xs

theorem Framed.foldlM {ι : Type} {f : β → ι → Sql β} (hf : ∀ b x, Framed (f b x)) :
    ∀ (xs : List ι) (b : β), Framed (xs.foldlM f b)
  | [], b => .pure b
  | x :: xs, b => by
    rw [List.foldlM_cons]
    exact .bind (hf b x) fun b' => Framed.foldlM hf xs b'

/-! ## Enough inputs -/

/-- Some inputs are just what the statements take. -/
def Fed (m : Sql α) (db : DB) : Prop :=
  ∃ inp : Inputs, (∀ v ∈ inp.tokens, isTokenHex v = true) ∧
    ((∃ a db', m db inp = .ok a db' .empty) ∨ ∃ e db', m db inp = .error e db' .empty)

theorem Fed.pure (a : α) (db : DB) : Fed (Pure.pure a) db :=
  ⟨.empty, by simp [Inputs.empty], .inl ⟨a, db, rfl⟩⟩

theorem Fed.query (f : DB → α) (db : DB) : Fed (Sql.query f) db :=
  ⟨.empty, by simp [Inputs.empty], .inl ⟨f db, db, rfl⟩⟩

theorem Fed.raise (e : Err) (db : DB) : Fed (Sql.raise e : Sql α) db :=
  ⟨.empty, by simp [Inputs.empty], .inr ⟨e, db, rfl⟩⟩

theorem Fed.execute (f : DB → DB) (db : DB) : Fed (Sql.execute f) db := by
  refine ⟨.empty, by simp [Inputs.empty], ?_⟩
  by_cases hc : (f db).Consistent
  · exact .inl ⟨(), f db, execute_eq_ok.2 ⟨hc, rfl, rfl⟩⟩
  · exact .inr ⟨.integrity, db, execute_eq_error.2 ⟨hc, rfl, rfl, rfl⟩⟩

theorem Fed.now (db : DB) : Fed Sql.now db :=
  ⟨⟨[0], []⟩, by simp, .inl ⟨0, db, now_eq_ok.2 ⟨rfl, rfl, rfl⟩⟩⟩

theorem Fed.newSecret {db : DB} (h : ∃ v, isTokenHex v = true ∧ secretUsed v db = false) :
    Fed newSecret db := by
  obtain ⟨v, hhex, hv⟩ := h
  refine ⟨⟨[], [v]⟩, by simpa using hhex, .inl ⟨v, db, ?_⟩⟩
  simp [WebProxyPanel.newSecret, firstUnused, hv, Inputs.empty]

theorem Fed.bind {m : Sql α} {f : α → Sql β} {db : DB} (hm : Framed m) (h : Fed m db)
    (hf : ∀ inp a db' inp', (∀ v ∈ inp.tokens, isTokenHex v = true) → m db inp = .ok a db' inp' →
      Fed (f a) db') :
    Fed (m >>= f) db := by
  obtain ⟨inp, hhex, ⟨a, db', h₁⟩ | ⟨e, db', h₁⟩⟩ := h
  · obtain ⟨inp₂, hhex₂, h₂⟩ := hf inp a db' .empty hhex h₁
    have h₁' := hm.ok inp₂ h₁
    rw [Inputs.empty_append] at h₁'
    refine ⟨inp.append inp₂, ?_, ?_⟩
    · intro v hv
      rcases List.mem_append.1 hv with hv | hv
      · exact hhex v hv
      · exact hhex₂ v hv
    · rcases h₂ with ⟨b, db'', h₂⟩ | ⟨e, db'', h₂⟩
      · exact .inl ⟨b, db'', bind_eq_ok.2 ⟨a, db', inp₂, h₁', h₂⟩⟩
      · exact .inr ⟨e, db'', bind_eq_error.2 (.inr ⟨a, db', inp₂, h₁', h₂⟩)⟩
  · exact ⟨inp, hhex, .inr ⟨e, db', bind_eq_error.2 (.inl h₁)⟩⟩

/-- A loop, with an invariant of the databases it passes through. -/
theorem Fed.forM {ι : Type} {f : ι → Sql PUnit} {I : List ι → DB → Prop} (hm : ∀ x, Framed (f x))
    {xs : List ι}
    (hf : ∀ pre x suf, xs = pre ++ x :: suf → ∀ db, I pre db → Fed (f x) db ∧ ∀ {inp u db' inp'},
      f x db inp = .ok u db' inp' → I (pre ++ [x]) db')
    {db : DB} (h : I [] db) :
    Fed (xs.forM f) db ∧ ∀ {inp u db' inp'}, xs.forM f db inp = .ok u db' inp' → I xs db' := by
  have aux : ∀ (suf pre : List ι) (db : DB), xs = pre ++ suf → I pre db → Fed (suf.forM f) db ∧
      ∀ {inp u db' inp'}, suf.forM f db inp = .ok u db' inp' → I xs db' := by
    intro suf
    induction suf with
    | nil =>
      refine fun pre db hxs h => ⟨.pure _ db, fun {inp u db' inp'} hok => ?_⟩
      obtain ⟨-, rfl, -⟩ := pure_eq_ok.1 hok
      rw [hxs, List.append_nil]
      exact h
    | cons x suf ih =>
      intro pre db hxs h
      obtain ⟨hfed, hstep⟩ := hf pre x suf hxs db h
      have hnext : xs = (pre ++ [x]) ++ suf := by simp [hxs]
      refine ⟨.bind (hm x) hfed fun inp a db' inp' _ hok =>
        (ih (pre ++ [x]) db' hnext (hstep hok)).1, fun {inp u db' inp'} hok => ?_⟩
      obtain ⟨_, db₁, inp₁, h₁, h₂⟩ := bind_eq_ok.1 hok
      exact (ih (pre ++ [x]) db₁ hnext (hstep h₁)).2 h₂
  exact aux xs [] db rfl h

theorem Fed.foldlM {ι : Type} {f : β → ι → Sql β} {I : DB → Prop} (hm : ∀ b x, Framed (f b x))
    (hf : ∀ b x db, I db → Fed (f b x) db ∧ ∀ {inp b' db' inp'},
      f b x db inp = .ok b' db' inp' → I db') :
    ∀ (xs : List ι) (b : β) {db : DB}, I db → Fed (xs.foldlM f b) db
  | [], b, db, _ => .pure b db
  | x :: xs, b, db, h => by
    rw [List.foldlM_cons]
    obtain ⟨hfed, hstep⟩ := hf b x db h
    exact .bind (hm b x) hfed fun inp b' db' inp' _ hok => Fed.foldlM hm hf xs b' (hstep hok)

/-! ## What statements raise -/

def OnlyIntegrity (m : Sql α) : Prop :=
  ∀ {db inp e db' inp'}, m db inp = .error e db' inp' → e = .integrity

theorem OnlyIntegrity.pure (a : α) : OnlyIntegrity (Pure.pure a : Sql α) :=
  fun h => absurd h pure_ne_error

theorem OnlyIntegrity.query (f : DB → α) : OnlyIntegrity (Sql.query f) :=
  fun h => absurd h query_ne_error

theorem OnlyIntegrity.execute (f : DB → DB) : OnlyIntegrity (Sql.execute f) :=
  fun h => (execute_eq_error.1 h).2.1

theorem OnlyIntegrity.now : OnlyIntegrity Sql.now := fun h => absurd h now_ne_error

theorem OnlyIntegrity.newSecret : OnlyIntegrity newSecret := fun h => absurd h firstUnused_ne_error

theorem OnlyIntegrity.bind {m : Sql α} {f : α → Sql β} (hm : OnlyIntegrity m)
    (hf : ∀ a, OnlyIntegrity (f a)) : OnlyIntegrity (m >>= f) := by
  intro db inp e db' inp' h
  rcases bind_eq_error.1 h with h | ⟨a, db₁, inp₁, -, h⟩
  · exact hm h
  · exact hf a h

theorem OnlyIntegrity.forM {ι : Type} {f : ι → Sql PUnit} (hf : ∀ x, OnlyIntegrity (f x)) :
    ∀ xs : List ι, OnlyIntegrity (xs.forM f)
  | [] => OnlyIntegrity.pure _
  | x :: xs => OnlyIntegrity.bind (hf x) fun _ => OnlyIntegrity.forM hf xs

theorem OnlyIntegrity.foldlM {ι : Type} {f : β → ι → Sql β} (hf : ∀ b x, OnlyIntegrity (f b x)) :
    ∀ (xs : List ι) (b : β), OnlyIntegrity (xs.foldlM f b)
  | [], b => OnlyIntegrity.pure b
  | x :: xs, b => by
    rw [List.foldlM_cons]
    exact OnlyIntegrity.bind (hf b x) fun b' => OnlyIntegrity.foldlM hf xs b'

/-- Where no constraint can be violated, such statements raise nothing. -/
theorem OnlyIntegrity.ne_error {m : Sql α} (hm : OnlyIntegrity m) {D : String → Prop}
    {Q : α → DB → Prop} {db db' : DB} (h : m.wp D Q db) {inp inp' : Inputs}
    (hinp : ∀ v ∈ inp.tokens, D v) {e : Err} : m db inp ≠ .error e db' inp' := by
  intro he
  have := h inp hinp
  rw [he] at this
  exact this (hm he)

theorem wp.of_ok {m : Sql α} {D : String → Prop} {Q : α → DB → Prop} {db db' : DB} (h : m.wp D Q db)
    {inp inp' : Inputs} (hinp : ∀ v ∈ inp.tokens, D v) {a : α} (hok : m db inp = .ok a db' inp') :
    Q a db' ∧ ∀ v ∈ inp'.tokens, D v := by
  have := h inp hinp
  rwa [hok] at this

end Sql

/-! ## The statements of the pool -/

section Pool
open Sql
variable {db : DB}

theorem framed_abortStaged : Framed abortStaged :=
  .bind (.execute _) fun _ => .bind (.execute _) fun _ => .execute _

theorem fed_abortStaged (db : DB) : Fed abortStaged db :=
  .bind (.execute _) (.execute _ _) fun _ _ _ _ _ _ =>
    .bind (.execute _) (.execute _ _) fun _ _ _ _ _ _ => .execute _ _

theorem onlyIntegrity_abortStaged : OnlyIntegrity abortStaged :=
  OnlyIntegrity.bind (OnlyIntegrity.execute _) fun _ =>
    OnlyIntegrity.bind (OnlyIntegrity.execute _) fun _ =>
    OnlyIntegrity.execute _

theorem fed_logEvent (kind : String) (userId : Option Int) (details : String) (db : DB) :
    Fed (logEvent kind userId details) db := .bind .now (.now db) fun _ _ _ _ _ _ => .execute _ _

theorem framed_commitStaged : Framed commitStaged :=
  .bind (.query _) fun _ => .bind (.forM (fun _ => .execute _) _) fun _ => .execute _

theorem fed_commitStaged (db : DB) : Fed commitStaged db := by
  refine .bind (.query _) (.query _ db) fun _ rows _ _ _ _ =>
    .bind (.forM (fun _ => .execute _) rows) ?_ fun _ _ _ _ _ _ => .execute _ _
  exact (Fed.forM (I := fun _ _ => True) (fun _ => .execute _)
    (fun _ _ _ _ db _ => ⟨.execute _ db, fun _ => trivial⟩) trivial).1

theorem onlyIntegrity_commitStaged : OnlyIntegrity commitStaged :=
  OnlyIntegrity.bind (OnlyIntegrity.query _) fun _ => OnlyIntegrity.bind
    (OnlyIntegrity.forM (fun _ => OnlyIntegrity.execute _) _) fun _ => OnlyIntegrity.execute _

theorem onlyIntegrity_logEvent (kind : String) (userId : Option Int) (details : String) :
    OnlyIntegrity (logEvent kind userId details) := OnlyIntegrity.bind OnlyIntegrity.now fun _ =>
      OnlyIntegrity.execute _

theorem fed_newSecret (h : db.slots.length < 2 ^ 31) : Fed newSecret db :=
  .newSecret (exists_unused h)

theorem framed_stageSecret (row : Slot) : Framed (stageSecret row) := by
  unfold stageSecret
  split
  · exact .bind .newSecret fun _ => .execute _
  · exact .pure _

theorem firstUnused_db {times : List Int} {v : String} {db' : DB} {inp' : Inputs} :
    ∀ {tokens : List String}, firstUnused db times tokens = .ok v db' inp' → db' = db
  | [], h => by simp [firstUnused] at h
  | t :: ts, h => by
    simp only [firstUnused] at h
    split at h
    · exact firstUnused_db h
    · simp only [Res.ok.injEq] at h
      exact h.2.1.symm

theorem newSecret_db {inp inp' : Inputs} {v : String} {db' : DB}
    (h : newSecret db inp = .ok v db' inp') : db' = db :=
  firstUnused_db h

/-- One row of `stage_dirty` keeps the number of slots. -/
theorem fed_stageRow {n : Nat} (hn : n < 2 ^ 31) (acc : List Int) (row : Slot)
    (h : db.slots.length = n) :
    Fed (stageRow acc row) db ∧
      ∀ {inp acc' db' inp'}, stageRow acc row db inp = .ok acc' db' inp' →
        db'.slots.length = n := by
  have hstage : Fed (stageSecret row) db ∧
      ∀ {inp u db' inp'}, stageSecret row db inp = .ok u db' inp' → db'.slots.length = n := by
    unfold stageSecret
    split
    · refine ⟨.bind .newSecret (fed_newSecret (by omega)) fun _ _ _ _ _ _ => .execute _ _,
        fun {inp u db' inp'} hok => ?_⟩
      obtain ⟨v, db₁, inp₁, h₁, h₂⟩ := bind_eq_ok.1 hok
      obtain ⟨-, rfl, -⟩ := execute_eq_ok.1 h₂
      rw [newSecret_db h₁, DB.updateSlot, length_update]
      exact h
    · refine ⟨.pure _ _, fun {inp u db' inp'} hok => ?_⟩
      obtain ⟨-, rfl, -⟩ := pure_eq_ok.1 hok
      exact h
  refine ⟨.bind (framed_stageSecret row) hstage.1 fun _ _ _ _ _ _ => .pure _ _,
    fun {inp acc' db' inp'} hok => ?_⟩
  obtain ⟨u, db₁, inp₁, h₁, h₂⟩ := bind_eq_ok.1 hok
  obtain ⟨-, rfl, -⟩ := pure_eq_ok.1 h₂
  exact hstage.2 h₁

theorem framed_stageDirty : Framed stageDirty :=
  .bind (.query _) fun rows =>
    .foldlM (fun _ row => .bind (framed_stageSecret row) fun _ => .pure _) rows []

theorem fed_stageDirty (h : db.slots.length < 2 ^ 31) : Fed stageDirty db := by
  refine .bind (.query _) (.query _ db) fun inp rows db' _ _ hok => ?_
  obtain ⟨-, rfl, -⟩ := query_eq_ok.1 hok
  exact .foldlM (I := fun db' => db'.slots.length = db.slots.length)
    (fun _ row => .bind (framed_stageSecret row) fun _ => .pure _)
    (fun acc row _ hl => fed_stageRow h acc row hl) rows [] rfl

theorem framed_insertSlot (shard : Int) (idx : Nat) : Framed (insertSlot shard idx) :=
  .bind .newSecret fun _ => .execute _

/-- One slot of `create_shards`. -/
theorem fed_insertSlot {n : Nat} (hn : n < 2 ^ 31) (shard : Int) (idx : Nat)
    (h : db.slots.length ≤ n) :
    Fed (insertSlot shard idx) db ∧
      ∀ {inp u db' inp'}, insertSlot shard idx db inp = .ok u db' inp' →
        db'.slots.length ≤ n + 1 := by
  refine ⟨.bind .newSecret (fed_newSecret (by omega)) fun _ _ _ _ _ _ => .execute _ _,
    fun {inp u db' inp'} hok => ?_⟩
  obtain ⟨v, db₁, inp₁, h₁, h₂⟩ := bind_eq_ok.1 hok
  obtain ⟨-, rfl, -⟩ := execute_eq_ok.1 h₂
  rw [newSecret_db h₁]
  simpa [DB.addSlot] using h

theorem framed_insertShard (timestamp shard : Int) : Framed (insertShard timestamp shard) :=
  .bind (.execute _) fun _ => .forM (framed_insertSlot shard) _

/-- One shard of `create_shards`. -/
theorem fed_insertShard {n : Nat} (hn : n + shardSize < 2 ^ 31) (timestamp shard : Int)
    (h : db.slots.length ≤ n) :
    Fed (insertShard timestamp shard) db ∧
      ∀ {inp u db' inp'}, insertShard timestamp shard db inp = .ok u db' inp' →
        db'.slots.length ≤ n + shardSize := by
  have hloop : ∀ db : DB, db.slots.length ≤ n →
      Fed ((List.range shardSize).forM (insertSlot shard)) db ∧
      ∀ {inp u db' inp'}, (List.range shardSize).forM (insertSlot shard) db inp = .ok u db' inp' →
        db'.slots.length ≤ n + (List.range shardSize).length := by
    intro db hdb
    refine Fed.forM (I := fun pre db' => db'.slots.length ≤ n + pre.length)
      (framed_insertSlot shard) ?_ hdb
    intro pre idx suf hsplit db₁ h₁
    have hpre : pre.length + (suf.length + 1) = shardSize := by
      have := congrArg List.length hsplit
      simpa using this.symm
    have := fed_insertSlot (n := n + pre.length) (by omega) shard idx h₁
    simpa [Nat.add_assoc] using this
  refine ⟨.bind (.execute _) (.execute _ _) fun inp a db' inp' _ hok => ?_,
    fun {inp u db' inp'} hok => ?_⟩
  · obtain ⟨-, rfl, -⟩ := execute_eq_ok.1 hok
    exact (hloop (DB.addShard shard timestamp db) h).1
  · obtain ⟨_, db₁, inp₁, h₁, h₂⟩ := bind_eq_ok.1 hok
    obtain ⟨-, rfl, -⟩ := execute_eq_ok.1 h₁
    simpa using (hloop (DB.addShard shard timestamp db) h).2 h₂

theorem framed_createShards (count : Int) : Framed (createShards count) := by
  unfold createShards
  split
  · exact .pure _
  · refine .bind (.query _) fun first => ?_
    split
    · exact .raise _
    · exact .bind .now fun ts => .bind (.forM (framed_insertShard ts) _) fun _ => .pure _

theorem fed_createShards (count : Int) (hfirst : 0 ≤ firstNewShard db)
    (h : (db.slots.length : Int) ≤ maxShards * shardSize) : Fed (createShards count) db := by
  unfold createShards
  split
  · exact .pure _ _
  · refine .bind (.query _) (.query _ _) fun inp first db' _ _ hok => ?_
    obtain ⟨rfl, rfl, -⟩ := query_eq_ok.1 hok
    split
    · exact .raise _ _
    · rename_i hcount hlimit
      refine .bind .now (.now _) fun inp ts db' _ _ hok => ?_
      obtain ⟨-, -, rfl⟩ := now_eq_ok.1 hok
      refine .bind (.forM (framed_insertShard ts) _) ?_ fun _ _ _ _ _ _ => .pure _ _
      refine (Fed.forM (I := fun pre db' => db'.slots.length ≤ db.slots.length +
        pre.length * shardSize) (framed_insertShard ts) ?_ (by simp)).1
      intro pre k suf hsplit db₁ h₁
      -- at most 625 shards, so at most ten thousand slots more
      have hpre : pre.length + (suf.length + 1) = count.toNat := by
        have := congrArg List.length hsplit
        simpa using this.symm
      have hmax : maxShards = 625 := by decide
      have hsize : shardSize = 16 := rfl
      have hroom : db.slots.length + pre.length * shardSize + shardSize < 2 ^ 31 := by
        rw [hmax, hsize] at h
        rw [hmax] at hlimit
        rw [hsize]
        omega
      have := fed_insertShard hroom ts k h₁
      simpa [Nat.add_mul, Nat.add_assoc] using this

/-- Sixteen slots a shard. -/
theorem Layout.slots_length (h : Layout db) : db.slots.length = db.shards.length * shardSize := by
  have := congrArg List.length h.slots
  simpa [List.length_flatMap] using this

theorem fed_stageRows (h : Inv db) (growShards : Option Int) : Fed (stageRows growShards) db := by
  refine .bind framed_abortStaged (fed_abortStaged db) fun inp _ db₁ inp₁ hhex hok => ?_
  obtain ⟨hdb, hhex⟩ :=
    wp.of_ok (abortStaged_wp h (D := fun v => isTokenHex v = true)
    (Q := fun _ db' => db' = aborted db) rfl) hhex hok
  subst hdb
  have hmax : maxShards = 625 := by decide
  -- at most ten thousand slots
  have hslots : ∀ {db : DB}, Inv db → (db.slots.length : Int) ≤ maxShards * shardSize ∧
      db.slots.length < 2 ^ 31 := by
    intro db h
    have hlen := h.layout.slots_length
    have hlim := h.layout.limit
    have hsize : shardSize = 16 := rfl
    rw [hmax] at hlim ⊢
    rw [hsize] at hlen ⊢
    omega
  refine .bind framed_stageDirty (fed_stageDirty (hslots (inv_aborted h)).2) fun inp restart db₂
    inp₂ hhex hok => ?_
  obtain ⟨h₂, hhex⟩ := wp.of_ok
      (stageDirty_wp (inv_aborted h) (fun _ hv => hv) (fun s hs => aborted_pending h hs)
    (Q := fun restart db' => StagedDirty (fun v => isTokenHex v = true) (aborted db) restart db')
    fun _ _ hs => hs) hhex hok
  have hcreate : ∀ grow, Fed (createShards grow >>= fun new => Pure.pure (restart, new)) db₂ := by
    intro grow
    refine .bind (framed_createShards grow) (fed_createShards grow ?_ (hslots h₂.inv).1) fun _ _ _ _
      _ _ => .pure _ _
    rw [firstNewShard_eq h₂.inv.layout]
    omega
  cases growShards with
  | none =>
    refine .bind (.query _) (.query _ _) fun _ grow _ _ _ hok => ?_
    obtain ⟨-, rfl, -⟩ := query_eq_ok.1 hok
    exact hcreate grow
  | some n =>
    refine .bind (.pure n) (.pure n _) fun _ grow _ _ _ hok => ?_
    obtain ⟨-, rfl, -⟩ := pure_eq_ok.1 hok
    exact hcreate grow

end Pool

end WebProxyPanel
