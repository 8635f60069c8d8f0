import Mathlib.Data.List.Basic
/-!
# Bytes as text

Hexadecimal digits, percent-encoding and unpadded base64url, each with its decoder and the law that
the decoder undoes the encoder.

* `toHex`, `ofHex` — two lower case digits a byte.
* `Percent` — a byte is itself if it is unreserved, else `%XX`.
* `Base64url` — three bytes are four digits; a rest of one or two bytes is two or three digits.
* `cutAt`, `cutHead` — text up to a separator, and after a fixed beginning.
-/

namespace Encoding

theorem byte_ofNat {b : UInt8} {n : ℕ} (h : n = b.toNat) : UInt8.ofNat n = b := by
  rw [h, UInt8.ofNat_toNat]

/-! ## Hexadecimal -/

/-- The digits that `Nat.digitChar` gives below 16. -/
def isHexDigit (c : Char) : Bool := c.isDigit || ('a'.toNat ≤ c.toNat && c.toNat ≤ 'f'.toNat)

/-- The value of a digit, in either case. -/
def hexValue (c : Char) : Option ℕ :=
  if c.isDigit then some (c.toNat - 48)
  else if 'a'.toNat ≤ c.toNat ∧ c.toNat ≤ 'f'.toNat then some (c.toNat - 87)
  else if 'A'.toNat ≤ c.toNat ∧ c.toNat ≤ 'F'.toNat then some (c.toNat - 55)
  else none

def upperDigit (n : ℕ) : Char := (Nat.digitChar n).toUpper

theorem hexValue_digitChar {n : ℕ} (h : n < 16) : hexValue (Nat.digitChar n) = some n := by
  have hall : ∀ k : Fin 16, hexValue (Nat.digitChar k) = some k.val := by decide
  exact hall ⟨n, h⟩

theorem hexValue_upperDigit {n : ℕ} (h : n < 16) : hexValue (upperDigit n) = some n := by
  have hall : ∀ k : Fin 16, hexValue (upperDigit k) = some k.val := by decide
  exact hall ⟨n, h⟩

theorem exists_hexDigit {c : Char} (h : isHexDigit c = true) : ∃ n < 16, c = Nat.digitChar n := by
  have hall : ∀ k : Fin 16, (Nat.digitChar k).toNat = if k.val < 10 then 48 + k.val else
      87 + k.val := by decide
  have hrange : 48 ≤ c.toNat ∧ c.toNat ≤ 57 ∨ 97 ≤ c.toNat ∧ c.toNat ≤ 102 := by
    simpa [isHexDigit, Char.isDigit, UInt32.le_iff_toNat_le] using h
  rcases hrange with hd | ha
  · refine ⟨c.toNat - 48, by omega, Char.toNat_inj.1 ?_⟩
    rw [hall ⟨c.toNat - 48, by omega⟩, if_pos (by show c.toNat - 48 < 10; omega)]
    show c.toNat = 48 + (c.toNat - 48)
    omega
  · refine ⟨c.toNat - 87, by omega, Char.toNat_inj.1 ?_⟩
    rw [hall ⟨c.toNat - 87, by omega⟩, if_neg (by show ¬ c.toNat - 87 < 10; omega)]
    show c.toNat = 87 + (c.toNat - 87)
    omega

/-- Two digits a byte. -/
def toHex (bytes : List UInt8) : List Char :=
  bytes.flatMap fun b => [Nat.digitChar (b.toNat / 16), Nat.digitChar (b.toNat % 16)]

/-- Pairs of digits as bytes. -/
def ofHex : List Char → Option (List UInt8)
  | [] => some []
  | [_] => none
  | c :: d :: cs => do
    let high ← hexValue c
    let low ← hexValue d
    let bytes ← ofHex cs
    pure (UInt8.ofNat (16 * high + low) :: bytes)

/-- Lower case digits, of an even number, are the digits of their bytes. -/
theorem toHex_ofHex : ∀ {cs : List Char}, (∀ c ∈ cs, isHexDigit c = true) → 2 ∣ cs.length →
    ∃ bytes, ofHex cs = some bytes ∧ toHex bytes = cs ∧ 2 * bytes.length = cs.length
  | [], _, _ => ⟨[], rfl, rfl, rfl⟩
  | [_], _, h => by simp at h
  | c :: d :: cs, hcs, hlen => by
    obtain ⟨m, hm, rfl⟩ := exists_hexDigit (hcs c List.mem_cons_self)
    obtain ⟨n, hn, rfl⟩ := exists_hexDigit (hcs d (List.mem_cons_of_mem _ List.mem_cons_self))
    have hlen' : 2 ∣ cs.length := by
      simp only [List.length_cons] at hlen
      omega
    obtain ⟨bytes, hbytes, htext, hcount⟩ := toHex_ofHex (fun c hc =>
      hcs c (List.mem_cons_of_mem _ (List.mem_cons_of_mem _ hc))) hlen'
    have hval : (UInt8.ofNat (16 * m + n)).toNat = 16 * m + n := by
      rw [UInt8.toNat_ofNat']
      omega
    refine ⟨UInt8.ofNat (16 * m + n) :: bytes, ?_, ?_, ?_⟩
    · simp [ofHex, hexValue_digitChar hm, hexValue_digitChar hn, hbytes]
    · rw [toHex, List.flatMap_cons, hval, show (16 * m + n) / 16 =
        m by omega, show (16 * m + n) % 16 = n by omega]
      show _ :: _ :: toHex bytes = _
      rw [htext]
    · simp only [List.length_cons]
      omega

/-! ## Percent-encoding -/

namespace Percent

/-- The characters that stand for themselves. -/
def unreserved (c : Char) : Bool := c.isAlphanum || c = '_' || c = '.' || c = '-' || c = '~'

def encodeByte (b : UInt8) : List Char :=
  if b.toNat < 128 ∧ unreserved (Char.ofNat b.toNat) then [Char.ofNat b.toNat]
  else ['%', upperDigit (b.toNat / 16), upperDigit (b.toNat % 16)]

def encode (bytes : List UInt8) : List Char := bytes.flatMap encodeByte

def decode : List Char → Option (List UInt8)
  | [] => some []
  | c :: cs =>
    if c = '%' then
      match cs with
      | d :: e :: cs => do
        let high ← hexValue d
        let low ← hexValue e
        let bytes ← decode cs
        pure (UInt8.ofNat (16 * high + low) :: bytes)
      | _ => none
    else if c.toNat < 128 then (decode cs).map (UInt8.ofNat c.toNat :: ·)
    else none

theorem unreserved_byte {n : ℕ} (h : n < 128) (hu : unreserved (Char.ofNat n) = true) :
    (Char.ofNat n).toNat = n ∧ Char.ofNat n ≠ '%' := by
  have hall : ∀ k : Fin 128, unreserved (Char.ofNat k) = true → (Char.ofNat k).toNat = k.val ∧
      Char.ofNat k ≠ '%' := by
    decide
  exact hall ⟨n, h⟩ hu

theorem decode_encodeByte (b : UInt8) (cs : List Char) :
    decode (encodeByte b ++ cs) = (decode cs).map (b :: ·) := by
  have hb := b.toNat_lt
  unfold encodeByte
  split
  · rename_i hu
    obtain ⟨hval, hne⟩ := unreserved_byte hu.1 hu.2
    rw [List.singleton_append, decode.eq_def]
    simp only [hval]
    rw [if_neg hne, if_pos hu.1, byte_ofNat rfl]
  · have hbyte : UInt8.ofNat (16 * (b.toNat / 16) + b.toNat % 16) = b := byte_ofNat (by omega)
    rw [List.cons_append, List.cons_append, List.cons_append, List.nil_append, decode.eq_def]
    simp only [hexValue_upperDigit (show b.toNat / 16 < 16 by omega),
      hexValue_upperDigit (show b.toNat % 16 < 16 by omega), if_true,
      Option.bind_eq_bind, Option.bind_some, hbyte, Option.pure_def]
    exact Option.map_eq_bind.symm

theorem decode_encode (bytes : List UInt8) : decode (encode bytes) = some bytes := by
  induction bytes with
  | nil => rfl
  | cons b bytes ih =>
    rw [encode, List.flatMap_cons, decode_encodeByte]
    show (decode (encode bytes)).map _ = _
    rw [ih]
    rfl

theorem mem_encode {bytes : List UInt8} {c : Char} (h : c ∈ encode bytes) :
    unreserved c = true ∨ c = '%' := by
  have hdigit : ∀ k : Fin 16, unreserved (upperDigit k) = true := by decide
  obtain ⟨b, -, hc⟩ := List.mem_flatMap.1 h
  have hb := b.toNat_lt
  unfold encodeByte at hc
  split at hc
  · rename_i hu
    rw [List.mem_singleton.1 hc]
    exact .inl hu.2
  · simp only [List.mem_cons, List.not_mem_nil, or_false] at hc
    rcases hc with rfl | rfl | rfl
    · exact .inr rfl
    · exact .inl (hdigit ⟨b.toNat / 16, by omega⟩)
    · exact .inl (hdigit ⟨b.toNat % 16, by omega⟩)

end Percent

/-! ## Base64 for URLs -/

namespace Base64url

def alphabet : List Char :=
  "ABCDEFGHIJKLMNOPQRSTUVWXYZabcdefghijklmnopqrstuvwxyz0123456789-_".toList

def digit (n : ℕ) : Char := alphabet.getD n 'A'

def value (c : Char) : Option ℕ := if alphabet.idxOf c < 64 then some (alphabet.idxOf c) else none

def encode : List UInt8 → List Char
  | [] => []
  | [a] => [digit (a.toNat / 4), digit (a.toNat % 4 * 16)]
  | [a, b] =>
    [digit (a.toNat / 4), digit (a.toNat % 4 * 16 + b.toNat / 16), digit (b.toNat % 16 * 4)]
  | a :: b :: c :: rest =>
    digit (a.toNat / 4) :: digit (a.toNat % 4 * 16 + b.toNat / 16) ::
      digit (b.toNat % 16 * 4 + c.toNat / 64) :: digit (c.toNat % 64) :: encode rest

def decode : List Char → Option (List UInt8)
  | [] => some []
  | [_] => none
  | [w, x] => do
    let w ← value w
    let x ← value x
    pure [UInt8.ofNat (w * 4 + x / 16)]
  | [w, x, y] => do
    let w ← value w
    let x ← value x
    let y ← value y
    pure [UInt8.ofNat (w * 4 + x / 16), UInt8.ofNat (x % 16 * 16 + y / 4)]
  | w :: x :: y :: z :: rest => do
    let w ← value w
    let x ← value x
    let y ← value y
    let z ← value z
    let bytes ← decode rest
    pure (UInt8.ofNat (w * 4 + x / 16) :: UInt8.ofNat (x % 16 * 16 + y / 4) ::
      UInt8.ofNat (y % 4 * 64 + z) :: bytes)

theorem value_digit {n : ℕ} (h : n < 64) : value (digit n) = some n := by
  have hall : ∀ k : Fin 64, value (digit k) = some k.val := by decide +kernel
  exact hall ⟨n, h⟩

theorem decode_encode (bytes : List UInt8) : decode (encode bytes) = some bytes := by
  fun_induction encode bytes with
  | case1 => rfl
  | case2 a =>
    have ha := a.toNat_lt
    simp only [decode, value_digit (show a.toNat / 4 < 64 by omega),
      value_digit (show a.toNat % 4 * 16 < 64 by omega),
      Option.bind_eq_bind, Option.bind_some, Option.pure_def]
    rw [byte_ofNat (show a.toNat / 4 * 4 + a.toNat % 4 * 16 / 16 = a.toNat by omega)]
  | case3 a b =>
    have ha := a.toNat_lt
    have hb := b.toNat_lt
    simp only [decode, value_digit (show a.toNat / 4 < 64 by omega),
      value_digit (show a.toNat % 4 * 16 + b.toNat / 16 < 64 by omega),
      value_digit (show b.toNat % 16 * 4 < 64 by omega), Option.bind_eq_bind, Option.bind_some,
      Option.pure_def]
    rw [byte_ofNat (show a.toNat / 4 * 4 + (a.toNat % 4 * 16 + b.toNat / 16) / 16 =
      a.toNat by omega),
      byte_ofNat (show (a.toNat % 4 * 16 + b.toNat / 16) % 16 * 16 + b.toNat % 16 * 4 / 4 =
        b.toNat by omega)]
  | case4 a b c rest ih =>
    have ha := a.toNat_lt
    have hb := b.toNat_lt
    have hc := c.toNat_lt
    simp only [decode, value_digit (show a.toNat / 4 < 64 by omega),
      value_digit (show a.toNat % 4 * 16 + b.toNat / 16 < 64 by omega),
      value_digit (show b.toNat % 16 * 4 + c.toNat / 64 < 64 by omega),
      value_digit (show c.toNat % 64 < 64 by omega), ih,
      Option.bind_eq_bind, Option.bind_some, Option.pure_def]
    rw [byte_ofNat (show a.toNat / 4 * 4 + (a.toNat % 4 * 16 + b.toNat / 16) / 16 =
      a.toNat by omega),
      byte_ofNat (show (a.toNat % 4 * 16 + b.toNat / 16) % 16 * 16 +
        (b.toNat % 16 * 4 + c.toNat / 64) / 4 = b.toNat by omega),
      byte_ofNat (show (b.toNat % 16 * 4 + c.toNat / 64) % 4 * 64 + c.toNat % 64 =
        c.toNat by omega)]

theorem digit_mem (n : ℕ) : digit n ∈ alphabet := by
  unfold digit
  rw [List.getD_eq_getElem?_getD]
  cases h : alphabet[n]? with
  | none => decide
  | some c => exact List.mem_of_getElem? h

theorem mem_encode {bytes : List UInt8} {c : Char} (h : c ∈ encode bytes) : c ∈ alphabet := by
  fun_induction encode bytes with
  | case1 => simp at h
  | case2 a =>
    simp only [List.mem_cons, List.not_mem_nil, or_false] at h
    rcases h with rfl | rfl <;> exact digit_mem _
  | case3 a b =>
    simp only [List.mem_cons, List.not_mem_nil, or_false] at h
    rcases h with rfl | rfl | rfl <;> exact digit_mem _
  | case4 a b d rest ih =>
    simp only [List.mem_cons] at h
    rcases h with rfl | rfl | rfl | rfl | h
    · exact digit_mem _
    · exact digit_mem _
    · exact digit_mem _
    · exact digit_mem _
    · exact ih h

/-- Filled up with `=` to a multiple of four digits. -/
def encodePadded (bytes : List UInt8) : List Char :=
  encode bytes ++ List.replicate ((3 - bytes.length % 3) % 3) '='

/-- The text without the `c` at its end. -/
def rstrip (c : Char) (cs : List Char) : List Char := (cs.reverse.dropWhile (· = c)).reverse

theorem rstrip_append_replicate {c : Char} {cs : List Char} (h : c ∉ cs) (n : ℕ) :
    rstrip c (cs ++ List.replicate n c) = cs := by
  have hfirst : cs.reverse.dropWhile (· = c) = cs.reverse := by
    cases hrev : cs.reverse with
    | nil => rfl
    | cons d ds =>
      have hd : d ∈ cs := by
        rw [← List.mem_reverse, hrev]
        exact List.mem_cons_self
      rw [List.dropWhile_cons_of_neg]
      rintro hdc
      rw [← of_decide_eq_true hdc] at h
      exact h hd
  have hdrop : (List.replicate n c ++ cs.reverse).dropWhile (· = c) = cs.reverse := by
    induction n with
    | zero => exact hfirst
    | succ n ih => simpa [List.replicate_succ] using ih
  rw [rstrip, List.reverse_append, List.reverse_replicate, hdrop, List.reverse_reverse]

theorem rstrip_encodePadded (bytes : List UInt8) : rstrip '=' (encodePadded bytes) = encode bytes :=
  rstrip_append_replicate (fun h => absurd (mem_encode h) (by decide)) _

end Base64url

/-! ## Cutting -/

/-- The text up to the first `c`, and what follows it, if there is one. -/
def cutAt (c : Char) : List Char → List Char × Option (List Char)
  | [] => ([], none)
  | d :: cs => if d = c then ([], some cs) else (d :: (cutAt c cs).1, (cutAt c cs).2)

theorem cutAt_of_notMem {c : Char} {cs : List Char} (h : c ∉ cs) : cutAt c cs = (cs, none) := by
  induction cs with
  | nil => rfl
  | cons d cs ih =>
    rw [List.mem_cons, not_or] at h
    rw [cutAt, if_neg (Ne.symm h.1), ih h.2]

theorem cutAt_append {c : Char} {cs ds : List Char} (h : c ∉ cs) :
    cutAt c (cs ++ c :: ds) = (cs, some ds) := by
  induction cs with
  | nil => simp [cutAt]
  | cons d cs ih =>
    rw [List.mem_cons, not_or] at h
    rw [List.cons_append, cutAt, if_neg (Ne.symm h.1), ih h.2]

/-- What follows a fixed beginning. -/
def cutHead : List Char → List Char → Option (List Char)
  | [], cs => some cs
  | _ :: _, [] => none
  | d :: ds, c :: cs => if d = c then cutHead ds cs else none

@[simp] theorem cutHead_append (ds cs : List Char) : cutHead ds (ds ++ cs) = some cs := by
  induction ds with
  | nil => rfl
  | cons d ds ih => simp [cutHead, ih]

end Encoding
