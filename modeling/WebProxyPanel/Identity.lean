import WebProxyPanel.Confined
import WebProxyPanel.Global
import WebProxyPanel.Inputs
/-!
# The pool's layout and what is rendered from it

`PoolIdentity` collects what every reachable database has: the layout of shards and slots, secrets
that are all different, and with them renderings that the relay, the shards and `wppctl` accept.
-/

namespace WebProxyPanel
open Table Effects

/-! ## Names -/

theorem zeroPad_toList (width n : ℕ) :
    (zeroPad width n).toList = List.replicate (width - (Nat.toDigits 10 n).length) '0' ++
      Nat.toDigits 10 n := by
  have hneg : ¬ ((n : ℤ) < 0) := by omega
  simp [zeroPad, hneg, Nat.repr_eq_ofList_toDigits]

theorem zeroPad_length {width n : ℕ} (hw : 0 < width) (h : n < 10 ^ width) :
    (zeroPad width n).toList.length = width := by
  have := (Nat.length_toDigits_le_iff (b := 10) (by decide) hw).2 h
  rw [zeroPad_toList, List.length_append, List.length_replicate]
  omega

/-- The padded number can be read back. -/
theorem ofDigitChars_zeroPad (width n : ℕ) :
    Nat.ofDigitChars 10 (zeroPad width n).toList 0 = n := by
  rw [zeroPad_toList, Nat.ofDigitChars_append, Nat.ofDigitChars_replicate_zero, Nat.mul_zero]
  exact Nat.ofDigitChars_toDigits (by decide) (by decide)

theorem zeroPad_inj {width m n : ℕ} (h : (zeroPad width m).toList = (zeroPad width n).toList) :
    m = n := by
  rw [← ofDigitChars_zeroPad width m, h, ofDigitChars_zeroPad]

theorem profileName_inj {a b i j : ℕ} (ha : a < 1000) (hb : b < 1000)
    (h : profileName a i = profileName b j) : a = b ∧ i = j := by
  have hl := congrArg String.toList h
  simp only [profileName, String.toList_append, List.append_assoc] at hl
  have hl := List.append_cancel_left hl
  have hlen : (zeroPad 3 a).toList.length = (zeroPad 3 b).toList.length := by
    rw [zeroPad_length (by decide) (by omega), zeroPad_length (by decide) (by omega)]
  obtain ⟨hshard, hrest⟩ := List.append_inj hl hlen
  exact ⟨zeroPad_inj hshard, zeroPad_inj (List.append_cancel_left hrest)⟩

theorem toString_natCast (n : ℕ) : toString (n : ℤ) = toString n := rfl

theorem toString_inj {m n : ℕ} (h : toString m = toString n) : m = n := by
  rw [Nat.toString_eq_ofList_toDigits, Nat.toString_eq_ofList_toDigits] at h
  rw [← Nat.ofDigitChars_toDigits (b := 10) (n := m) (by decide) (by decide),
    String.ofList_injective h, Nat.ofDigitChars_toDigits (by decide) (by decide)]

/-! ## Slots of a shard -/

variable {db : DB}

theorem flatMap_ite {α β : Type} (p : α → Bool) (ys : List β) (xs : List α) :
    (xs.flatMap fun x => if p x then ys else []) = (xs.filter p).flatMap fun _ => ys := by
  induction xs with
  | nil => rfl
  | cons x xs ih =>
    rw [List.flatMap_cons, ih, List.filter_cons]
    split
    · rw [List.flatMap_cons]
    · rw [List.nil_append]

/-- The slots of a shard in the table, in the order of their indices. -/
theorem Inv.shardKeys_eq (h : Inv db) {sh : Shard} (hsh : sh ∈ db.shards) :
    (db.slots.filter fun s => decide (s.shardId = sh.id)).map Slot.key = shardKeys sh.id := by
  have hfilter : ((db.slots.map Slot.key).filter fun k => decide (k.1 = sh.id)) =
      shardKeys sh.id := by
    rw [h.layout.keys, List.filter_flatMap]
    have hone : ∀ k : ℤ, ((shardKeys k).filter fun x => decide (x.1 = sh.id)) =
        if decide (k = sh.id) then shardKeys sh.id else [] := by
      intro k
      by_cases hk : k = sh.id
      · subst hk
        simp only [decide_true, if_true]
        exact List.filter_eq_self.2 fun x hx => decide_eq_true (mem_shardKeys.1 hx).1
      · simp only [hk, decide_false]
        exact List.filter_eq_nil_iff.2 fun x hx => by simp [(mem_shardKeys.1 hx).1, hk]
    simp only [hone]
    rw [flatMap_ite (fun sh' : Shard => decide (sh'.id = sh.id)),
      filter_key_eq h.consistent.shardId hsh]
    simp
  rw [List.filter_map] at hfilter
  exact hfilter

theorem Inv.shardRows_idx (h : Inv db) {sh : Shard} (hsh : sh ∈ db.shards) :
    (shardRows sh.id db).map (·.idx) = (List.range shardSize).map fun i : ℕ => (i : ℤ) := by
  have hidx : (db.slots.filter fun s => decide (s.shardId = sh.id)).map (·.idx) =
      (List.range shardSize).map fun i : ℕ => (i : ℤ) := by
    have := congrArg (List.map Prod.snd) (h.shardKeys_eq hsh)
    simpa [shardKeys, Slot.key, Function.comp_def] using this
  have hsorted : (db.slots.filter fun s => decide (s.shardId = sh.id)).Pairwise fun a b =>
      a.idx ≤ b.idx := by
    have : ((db.slots.filter fun s => decide (s.shardId = sh.id)).map (·.idx)).Pairwise
        (· ≤ ·) := by
      rw [hidx]
      exact List.Pairwise.map _ (fun a b hab => by omega) List.pairwise_lt_range
    exact List.pairwise_map.1 this
  rw [← hidx]
  exact congrArg _ hsorted.insertionSort_eq

/-! ## Rendering -/

theorem Slot.renderedSecret_mem (s : Slot) :
    s.renderedSecret = s.secret ∨ s.pendingSecret = some s.renderedSecret := by
  unfold Slot.renderedSecret
  cases s.pendingSecret with
  | none => exact .inl rfl
  | some v =>
    by_cases hv : v = ""
    · exact .inl (by simp [hv])
    · exact .inr (by simp [hv])

/-- Secrets and pending secrets are all different, so whichever of the two each slot shows, no two
slots show the same. -/
theorem nodup_renderedSecret : ∀ {slots : List Slot},
    (slots.map (·.secret) ++ slots.filterMap (·.pendingSecret)).Nodup →
      (slots.map Slot.renderedSecret).Nodup
  | [], _ => List.nodup_nil
  | s :: slots, h => by
    obtain ⟨hs, hp, hd⟩ := List.nodup_append.1 h
    rw [List.map_cons, List.nodup_cons] at hs
    have hrest : (slots.map (·.secret) ++ slots.filterMap (·.pendingSecret)).Nodup := by
      refine h.sublist (List.Sublist.append (List.sublist_cons_self _ _) ?_)
      exact List.Sublist.filterMap _ (List.sublist_cons_self _ _)
    rw [List.map_cons, List.nodup_cons]
    refine ⟨fun hm => ?_, nodup_renderedSecret hrest⟩
    obtain ⟨s', hs', he⟩ := List.mem_map.1 hm
    have hmem' : s'.secret ∈ slots.map (·.secret) := List.mem_map_of_mem hs'
    rcases s.renderedSecret_mem with h₁ | h₁ <;> rcases s'.renderedSecret_mem with h₂ | h₂
    · exact hs.1 (by rw [← h₁, ← he, h₂]; exact hmem')
    · refine hd s.secret (by simp) s.secret ?_ rfl
      exact List.mem_filterMap.2 ⟨s', List.mem_cons_of_mem _ hs', by rw [h₂, he, h₁]⟩
    · refine hd s'.secret (List.mem_cons_of_mem _ hmem') s'.secret ?_ rfl
      exact List.mem_filterMap.2 ⟨s, List.mem_cons_self, by rw [h₁, ← he, h₂]⟩
    · rw [List.filterMap_cons, h₁] at hp
      refine (List.nodup_cons.1 hp).1 (List.mem_filterMap.2 ⟨s', hs', ?_⟩)
      rw [h₂, he]

theorem renderProfiles_perm (limits : Dict) (db : DB) :
    (renderProfiles limits db).Perm (db.slots.map (Slot.profile limits)) := (orderBy_perm _ _).map _

theorem Inv.slot_bounds (h : Inv db) {s : Slot} (hs : s ∈ db.slots) :
    ∃ k i : ℕ, s.shardId = k ∧ s.idx = i ∧ k < 625 ∧ i < 16 ∧
      s.port = ((20000 + 16 * k + i : ℕ) : ℤ) := by
  obtain ⟨sh, hsh, hid, -, -⟩ := h.shardOf hs
  have hk := h.layout.mem_ids.1 (List.mem_map_of_mem hsh)
  have hi := h.idx_bounds hs
  have hlim : (db.shards.length : ℤ) ≤ 625 := h.layout.limit
  rw [hid] at hk
  have hport := h.layout.ports s hs
  unfold slotPort slotPortBase at hport
  unfold shardSize at hi hport
  refine ⟨s.shardId.toNat, s.idx.toNat, ?_, ?_, ?_, ?_, ?_⟩ <;> omega

/-! ## Together -/

structure PoolIdentity (db : DB) : Prop where
  shardIds : db.shards.map (·.id) = (List.range db.shards.length).map fun n : ℕ => (n : ℤ)
  limit : db.shards.length ≤ 625
  activeBit : ∀ sh ∈ db.shards, sh.active = 0 ∨ sh.active = 1
  activeFirst : ∀ sh ∈ db.shards, ∀ sh' ∈ db.shards, sh.id ≤ sh'.id → sh'.active = 1 → sh.active = 1
  slotsOf : ∀ sh ∈ db.shards, (shardRows sh.id db).map (·.idx) = (List.range 16).map fun i : ℕ =>
    (i : ℤ)
  shardOf : ∀ s ∈ db.slots, s.shardId ∈ db.shards.map (·.id)
  port : ∀ s ∈ db.slots, s.port = 20000 + 16 * s.shardId + s.idx ∧ 20000 ≤ s.port ∧ s.port ≤ 29999
  secrets : (db.slots.map (·.secret) ++ db.slots.filterMap (·.pendingSecret)).Nodup
  /-- `commit_staged` violates no constraint. -/
  commits : ∀ inp e db' inp', commitStaged db inp ≠ .error e db' inp'
  names : ∀ limits, ((renderProfiles limits db).map (·.name)).Nodup
  backends : ∀ limits, ((renderProfiles limits db).map (·.backend)).Nodup
  profileSecrets : ∀ limits, ((renderProfiles limits db).map (·.secret)).Nodup
  envs : ∀ cfg, ∀ sh ∈ db.shards, ∃ text, renderShardEnv cfg sh.id db = .ok text
  parsePort : ∀ s ∈ db.slots, Ctl.parsePort (toString s.port) = .ok s.port
  parseShard : ∀ sh ∈ db.shards, Ctl.parseShard (toString sh.id) = .ok sh.id
  /-- `read_db` accepts the three lists. -/
  readDb : ∀ blocked, Ctl.checkRanges (allPorts db, blocked, allShards db) =
    .ok (allPorts db, blocked, allShards db)

theorem Inv.identity (h : Inv db) : PoolIdentity db where
  shardIds := h.layout.shardIds
  limit := by
    have : (db.shards.length : ℤ) ≤ 625 := h.layout.limit
    omega
  activeBit := h.layout.activeBit
  activeFirst := h.layout.activeFirst
  slotsOf _ hsh := h.shardRows_idx hsh
  shardOf := h.consistent.slotShard
  port s hs := by
    obtain ⟨k, i, hk, hi, hkb, hib, hport⟩ := h.slot_bounds hs
    omega
  secrets := h.secrets
  commits inp e db' inp' :=
    onlyIntegrity_commitStaged.ne_error (D := fun _ => True) (Q := fun _ _ => True)
      (commitStaged_wp h trivial) fun _ _ => trivial
  names limits := by
    refine ((renderProfiles_perm limits db).map _).nodup_iff.2 ?_
    rw [List.map_map]
    refine (nodup_of_map h.consistent.slotIdx).map_on fun s hs s' hs' he => ?_
    obtain ⟨k, i, hk, hi, hkb, -⟩ := h.slot_bounds hs
    obtain ⟨k', i', hk', hi', hkb', -⟩ := h.slot_bounds hs'
    simp only [Function.comp_apply, Slot.profile, hk, hi, hk', hi'] at he
    obtain ⟨rfl, rfl⟩ := profileName_inj (by omega) (by omega) he
    exact eq_of_key h.consistent.slotIdx hs hs' (by rw [hk, hi, hk', hi'])
  backends limits := by
    refine ((renderProfiles_perm limits db).map _).nodup_iff.2 ?_
    rw [List.map_map]
    refine (nodup_of_map h.consistent.slotIdx).map_on fun s hs s' hs' he => ?_
    obtain ⟨k, i, -, -, -, -, hp⟩ := h.slot_bounds hs
    obtain ⟨k', i', -, -, -, -, hp'⟩ := h.slot_bounds hs'
    simp only [Function.comp_apply, Slot.profile, String.append_right_inj, hp, hp',
      toString_natCast] at he
    exact eq_of_key h.consistent.slotPort hs hs' (by rw [hp, hp', toString_inj he])
  profileSecrets limits := by
    refine ((renderProfiles_perm limits db).map _).nodup_iff.2 ?_
    rw [List.map_map]
    exact nodup_renderedSecret h.secrets
  envs cfg sh hsh := by
    have hlen := congrArg List.length (h.shardRows_idx hsh)
    rw [List.length_map, List.length_map, List.length_range] at hlen
    exact ⟨_, if_neg (not_not.2 hlen)⟩
  parsePort s hs := by
    obtain ⟨k, i, -, -, hkb, hib, hp⟩ := h.slot_bounds hs
    refine Ctl.parsePort_eq_ok.2 ⟨_, hp, ?_, ?_, .inl (by rw [hp, toString_natCast])⟩
    · unfold slotPortBase
      omega
    · unfold slotPortLast
      omega
  parseShard sh hsh := by
    obtain ⟨h0, hlt⟩ := h.layout.mem_ids.1 (List.mem_map_of_mem hsh)
    have hlim := h.layout.limit
    refine Ctl.parseShard_eq_ok.2 ⟨sh.id.toNat, by omega, by omega, .inl ?_⟩
    rw [← toString_natCast, Int.toNat_of_nonneg h0]
  readDb blocked := by
    unfold Ctl.checkRanges
    rw [if_neg, if_neg]
    · rw [not_not]
      intro k hk
      obtain ⟨sh, hsh, rfl⟩ := List.mem_map.1 hk
      obtain ⟨h0, hlt⟩ := h.layout.mem_ids.1 (List.mem_map_of_mem (mem_orderBy.1 hsh))
      exact ⟨h0, lt_of_lt_of_le hlt h.layout.limit⟩
    · rw [not_not]
      intro p hp
      obtain ⟨s, hs, rfl⟩ := List.mem_map.1 hp
      obtain ⟨k, i, -, -, hkb, hib, hport⟩ := h.slot_bounds (mem_orderBy.1 hs)
      unfold slotPortBase slotPortLast
      omega

/-- Every database that the system reaches has it. -/
theorem reached_identity (ok : Allow Action Choice State) (mayStop : Prop) (c : Procs)
    (h : Reached ok mayStop c) :
    PoolIdentity c.shared.db := (reached_inv h).identity

theorem reached_identity_installed :
    PoolIdentity Procs.installed.shared.db ∧ Procs.installed.shared.db.slots.length = 16 :=
  ⟨reached_identity _ True Procs.installed reached_installed, by decide +kernel⟩

end WebProxyPanel
