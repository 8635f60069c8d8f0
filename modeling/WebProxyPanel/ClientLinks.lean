import WebProxyPanel.Lib.Encoding
import WebProxyPanel.Db
/-!
# Client links (`webproxy/links.py`)

| here | there |
| --- | --- |
| `validateSecret`, `validateBasePath` | links.py:17-33 |
| `markedSecret`, `clientServer`, `clientSecret` | :36-55, with `_b64url` |
| `build` | :58-60, with `urllib.parse.quote` |
| `deviceLink` | users.py:320-326 |

`decode` is not in the source: it is the reading of a link by a client, against which `build` is
measured. Under a base path the secret is marked and in base64url, without one it is the 32 digits
themselves.
-/

namespace WebProxyPanel
namespace ClientLinks
open Encoding

/-- `_SECRET_RE.fullmatch` -/
def isSecret (secretHex : String) : Bool :=
  secretHex.toList.length = 32 && secretHex.toList.all isHexDigit

/-- `validate_secret` -/
def validateSecret (secretHex : String) : Except Err (List UInt8) :=
  if ¬ isSecret secretHex then .error (.value "Секрет должен состоять из 32 символов 0-9a-f.")
  else
    match ofHex secretHex.toList with
    | some bytes => .ok bytes
    | none => .error (.value "non-hexadecimal number found in fromhex() arg")

/-- `_SEGMENT_RE.fullmatch` -/
def isSegment : List Char → Bool
  | [] => false
  | c :: cs => c.isAlphanum && cs.all fun d => d.isAlphanum || d = '_' || d = '-'

def maxBasePath : Nat := 128

/-- `validate_base_path` -/
def validateBasePath (basePath : String) : Except Err String :=
  if basePath = "" then .ok basePath
  else if basePath.toList.length > maxBasePath then
    .error (.value ("base_path длиннее " ++ toString maxBasePath ++ " символов."))
  else if ¬ (basePath.toList.splitOn '/').all isSegment then
    .error (.value "Недопустимый base_path: сегменты [A-Za-z0-9][A-Za-z0-9_-]* через «/».")
  else .ok basePath

/-- `MARKER` -/
def marker : UInt8 := 0x70

/-- `_b64url` -/
def b64url (data : List UInt8) : String :=
  String.ofList (Base64url.rstrip '=' (Base64url.encodePadded data))

/-- `marked_secret` -/
def markedSecret (secretHex : String) : Except Err String := do
  let bytes ← validateSecret secretHex
  pure (b64url (marker :: bytes))

/-- `client_server` -/
def clientServer (domain basePath : String) : Except Err String := do
  let _ ← validateBasePath basePath
  pure (if basePath ≠ "" then domain ++ "/" ++ basePath else domain)

/-- `client_secret` -/
def clientSecret (secretHex basePath : String) : Except Err String := do
  let _ ← validateBasePath basePath
  if basePath ≠ "" then markedSecret secretHex
  else do
    let _ ← validateSecret secretHex
    pure secretHex

/-- `string.encode("utf-8")` -/
def utf8 (s : String) : List UInt8 := s.toList.flatMap String.utf8EncodeChar

/-- `urllib.parse.quote(string, safe="")` -/
def quote (s : String) : String := String.ofList (Percent.encode (utf8 s))

/-- The query of a link. -/
def query (server secret : String) : String := "server=" ++ server ++ "&secret=" ++ secret

def address : String := "https://t.me/webproxy?"

/-- `build` -/
def build (domain basePath secretHex : String) : Except Err String := do
  let server ← clientServer domain basePath
  let secret ← clientSecret secretHex basePath
  pure (address ++ query (quote server) secret)

example :
    (build "proxy.example.com" "phcf2vfe7zgbrslg" "8561944064fc730cbfa4473562d8ec59").toOption =
      some "https://t.me/webproxy?server=proxy.example.com%2Fphcf2vfe7zgbrslg&secret=cIVhlEBk_HMMv6RHNWLY7Fk" := by decide +kernel

/-- The dict of `device_link`. -/
structure DeviceLink where
  link : String
  server : String
  secret : String
deriving DecidableEq, Repr

/-- `device_link` -/
def deviceLink (cfg : Config) (secret : String) : Except Err DeviceLink := do
  let link ← build cfg.domain cfg.basePath secret
  let server ← clientServer cfg.domain cfg.basePath
  let secret ← clientSecret secret cfg.basePath
  pure ⟨link, server, secret⟩

example :
    (markedSecret "8561944064fc730cbfa4473562d8ec59").toOption =
      some "cIVhlEBk_HMMv6RHNWLY7Fk" := by decide +kernel

/-! ## Reading a link -/

/-- The secret of a link under a base path. -/
def unmark (secret : List Char) : Option String := do
  match ← Base64url.decode secret with
  | first :: bytes =>
    if first = marker ∧ bytes.length = 16 then some (String.ofList (toHex bytes)) else none
  | [] => none

/-- Domain, base path and secret, from the two values of the query. -/
def readPair (server : String) (secret : List Char) : Option (String × String × String) :=
  match cutAt '/' server.toList with
  | (domain, none) =>
    if isSecret (String.ofList secret) then some (String.ofList domain, "", String.ofList secret)
      else none
  | (domain, some path) =>
    (unmark secret).map fun secret => (String.ofList domain, String.ofList path, secret)

/-- Domain, base path and secret of a link. -/
def decode (link : String) : Option (String × String × String) := do
  let text ← cutHead address.toList link.toList
  let (left, right) := cutAt '&' text
  let server ← cutHead "server=".toList left
  let secret ← cutHead "secret=".toList (← right)
  let server ← String.fromUTF8? (← Percent.decode server).toByteArray
  readPair server secret

/-- The characters that a query may have without further encoding. -/
def urlSafe (c : Char) : Bool := Percent.unreserved c || c = '%' || c = '&' || c = '='

/-! ## What the encoders leave -/

theorem fromUTF8_utf8 (s : String) : String.fromUTF8? (utf8 s).toByteArray = some s := by
  have hbytes : (utf8 s).toByteArray = s.toByteArray := String.utf8Encode_toList
  rw [hbytes, String.fromUTF8?, dif_pos s.isValidUTF8]
  rfl

theorem decode_quote (s : String) : Percent.decode (quote s).toList = some (utf8 s) := by
  rw [quote, String.toList_ofList, Percent.decode_encode]

theorem validateSecret_ok {secretHex : String} (h : isSecret secretHex = true) :
    ∃ bytes, validateSecret secretHex = .ok bytes ∧ toHex bytes = secretHex.toList ∧
      bytes.length = 16 := by
  obtain ⟨hlen, hall⟩ := Bool.and_eq_true_iff.1 h
  rw [decide_eq_true_eq] at hlen
  obtain ⟨bytes, hbytes, htext, hcount⟩ := toHex_ofHex (List.all_eq_true.1 hall) (by omega)
  refine ⟨bytes, ?_, htext, by omega⟩
  rw [validateSecret, if_neg (not_not.2 h), hbytes]

theorem unmark_markedSecret {secretHex : String} {bytes : List UInt8}
    (htext : toHex bytes = secretHex.toList) (hlen : bytes.length = 16) :
    unmark (b64url (marker :: bytes)).toList = some secretHex := by
  rw [b64url, String.toList_ofList, Base64url.rstrip_encodePadded, unmark, Base64url.decode_encode]
  show (if marker = marker ∧ bytes.length = 16 then some (String.ofList (toHex bytes))
      else none) = _
  rw [if_pos ⟨rfl, hlen⟩, htext, String.ofList_toList]

theorem validateBasePath_cases (basePath : String) :
    validateBasePath basePath = .ok basePath ∨ ∃ message, validateBasePath basePath =
      .error (.value message) := by
  unfold validateBasePath
  split
  · exact .inl rfl
  split
  · exact .inr ⟨_, rfl⟩
  split
  · exact .inr ⟨_, rfl⟩
  · exact .inl rfl

/-- Whatever the base path, a malformed secret is refused. -/
theorem clientSecret_error {secretHex : String} (basePath : String)
    (h : ¬ isSecret secretHex = true) :
    ∃ message, clientSecret secretHex basePath = .error (.value message) := by
  have hsecret : validateSecret secretHex =
      .error (.value "Секрет должен состоять из 32 символов 0-9a-f.") := if_pos h
  rcases validateBasePath_cases basePath with hpath | ⟨message, hpath⟩
  · refine ⟨"Секрет должен состоять из 32 символов 0-9a-f.", ?_⟩
    unfold clientSecret markedSecret
    rw [hpath, hsecret]
    by_cases hb : basePath ≠ ""
    · exact if_pos hb
    · exact if_neg hb
  · refine ⟨message, ?_⟩
    unfold clientSecret
    rw [hpath]
    rfl

theorem mem_quote {s : String} {c : Char} (h : c ∈ (quote s).toList) :
    Percent.unreserved c = true ∨ c = '%' := by
  rw [quote, String.toList_ofList] at h
  exact Percent.mem_encode h

/-- The characters of a secret in a link are unreserved. -/
theorem clientSecret_unreserved {secretHex basePath secret : String}
    (h : clientSecret secretHex basePath = .ok secret) {c : Char} (hc : c ∈ secret.toList) :
    Percent.unreserved c = true := by
  have hhex : ∀ k : Fin 16, Percent.unreserved (Nat.digitChar k) = true := by decide
  have halpha : ∀ d ∈ Base64url.alphabet, Percent.unreserved d = true :=
    List.all_eq_true.1 (by decide)
  by_cases hs : isSecret secretHex = true
  · obtain ⟨bytes, hbytes, -⟩ := validateSecret_ok hs
    rcases validateBasePath_cases basePath with hpath | ⟨message, hpath⟩
    · rw [clientSecret, hpath] at h
      by_cases hb : basePath = ""
      · have hsame : secretHex = secret := by
          simpa [hb, hbytes, bind, Except.bind, pure, Except.pure] using h
        rw [← hsame] at hc
        obtain ⟨n, hn, rfl⟩ :=
          exists_hexDigit (List.all_eq_true.1 (Bool.and_eq_true_iff.1 hs).2 c hc)
        exact hhex ⟨n, hn⟩
      · have hmarked : b64url (marker :: bytes) = secret := by
          simpa [hb, markedSecret, hbytes, bind, Except.bind, pure, Except.pure] using h
        rw [← hmarked, b64url, String.toList_ofList, Base64url.rstrip_encodePadded] at hc
        exact halpha c (Base64url.mem_encode hc)
    · rw [clientSecret, hpath] at h
      simp [bind, Except.bind] at h
  · obtain ⟨message, hmessage⟩ := clientSecret_error basePath hs
    rw [hmessage] at h
    simp at h

/-! ## Links -/

section
variable {domain basePath secretHex : String}

theorem clientServer_ok (domain : String) (hpath : validateBasePath basePath = .ok basePath) :
    clientServer domain basePath =
      .ok (if basePath ≠ "" then domain ++ "/" ++ basePath else domain) := by
  rw [clientServer, hpath]
  rfl

/-- What `build` makes of valid arguments. -/
theorem build_ok (domain : String) (hpath : validateBasePath basePath = .ok basePath)
    (hsecret : isSecret secretHex = true) :
    ∃ secret, clientSecret secretHex basePath = .ok secret ∧
      build domain basePath secretHex =
        .ok (address ++ query
          (quote (if basePath ≠ "" then domain ++ "/" ++ basePath else domain)) secret) := by
  obtain ⟨bytes, hbytes, -⟩ := validateSecret_ok hsecret
  have hsec : ∃ secret, clientSecret secretHex basePath = .ok secret := by
    unfold clientSecret markedSecret
    rw [hpath, hbytes]
    by_cases hb : basePath ≠ ""
    · exact ⟨_, if_pos hb⟩
    · exact ⟨_, if_neg hb⟩
  obtain ⟨secret, hsec⟩ := hsec
  refine ⟨secret, hsec, ?_⟩
  rw [build, clientServer_ok domain hpath, hsec]
  rfl

/-- The query of a link falls into the two values that it is made of. -/
theorem decode_query (server secret : String) :
    decode (address ++ query (quote server) secret) = readPair server secret.toList := by
  have hlink : (address ++ query (quote server) secret).toList = address.toList ++
      ("server=".toList ++ (quote server).toList ++ '&' ::
        ("secret=".toList ++ secret.toList)) := by
    simp [query]
  have hamp : '&' ∉ "server=".toList ++ (quote server).toList := by
    intro h
    rcases List.mem_append.1 h with h | h
    · exact absurd h (by decide)
    · rcases mem_quote h with h | h <;> exact absurd h (by decide)
  rw [decode, hlink, cutHead_append]
  simp only [Option.bind_eq_bind, Option.bind_some, cutAt_append hamp, cutHead_append, decode_quote,
    fromUTF8_utf8]

theorem readPair_ok (hdomain : '/' ∉ domain.toList)
    (hpath : validateBasePath basePath = .ok basePath) (hsecret : isSecret secretHex = true)
    {secret : String} (h : clientSecret secretHex basePath = .ok secret) :
    readPair (if basePath ≠ "" then domain ++ "/" ++ basePath else
      domain) secret.toList = some (domain, basePath, secretHex) := by
  obtain ⟨bytes, hbytes, htext, hlen⟩ := validateSecret_ok hsecret
  rw [clientSecret, hpath] at h
  by_cases hb : basePath = ""
  · have hsame : secretHex = secret := by
      simpa [hb, hbytes, bind, Except.bind, pure, Except.pure] using h
    rw [← hsame, if_neg (not_not.2 hb), readPair, cutAt_of_notMem hdomain]
    simp [hsecret, hb]
  · have hmarked : b64url (marker :: bytes) = secret := by
      simpa [hb, markedSecret, hbytes, bind, Except.bind, pure, Except.pure] using h
    have hcut : cutAt '/' (domain ++ "/" ++ basePath).toList =
        (domain.toList, some basePath.toList) := by
      have hlist : (domain ++ "/" ++ basePath).toList = domain.toList ++ '/' ::
          basePath.toList := by simp
      rw [hlist, cutAt_append hdomain]
    rw [← hmarked, if_pos hb, readPair, hcut]
    simp [unmark_markedSecret htext hlen]

/-- Anything else is refused. -/
theorem build_error (h : ¬ (validateBasePath basePath = .ok basePath ∧ isSecret secretHex = true)) :
    ∃ message, build domain basePath secretHex = .error (.value message) := by
  unfold build
  rcases validateBasePath_cases basePath with hpath | ⟨message, hpath⟩
  · obtain ⟨message, hsecret⟩ := clientSecret_error basePath (fun hs => h ⟨hpath, hs⟩)
    refine ⟨message, ?_⟩
    rw [clientServer, hpath, hsecret]
    rfl
  · refine ⟨message, ?_⟩
    rw [clientServer, hpath]
    rfl

/-- The shape of a query. -/
theorem query_shape {server secret : String}
    (hsecret : ∀ c ∈ secret.toList, Percent.unreserved c = true) :
    (query (quote server) secret).toList.count '&' = 1 ∧
      (query (quote server) secret).toList.count '=' = 2 ∧
      ∀ c ∈ (query (quote server) secret).toList, urlSafe c = true := by
  have hlist : (query (quote server) secret).toList = "server=".toList ++ (quote server).toList ++
      "&secret=".toList ++ secret.toList := by
    simp [query]
  have hsep : ∀ c, Percent.unreserved c = false → c ≠ '%' → (quote server).toList.count c = 0 ∧
      secret.toList.count c = 0 := by
    intro c hc hne
    refine ⟨List.count_eq_zero.2 fun hm => ?_, List.count_eq_zero.2 fun hm => ?_⟩
    · rcases mem_quote hm with hu | hu
      · rw [hc] at hu
        simp at hu
      · exact hne hu
    · have hu := hsecret c hm
      rw [hc] at hu
      simp at hu
  obtain ⟨hamp, hamp'⟩ := hsep '&' (by decide) (by decide)
  obtain ⟨heq, heq'⟩ := hsep '=' (by decide) (by decide)
  rw [hlist]
  refine ⟨?_, ?_, fun c hc => ?_⟩
  · rw [List.count_append, List.count_append, List.count_append, hamp, hamp']
    decide
  · rw [List.count_append, List.count_append, List.count_append, heq, heq']
    decide
  · have hserver : ∀ d ∈ "server=".toList, urlSafe d = true := List.all_eq_true.1 (by decide)
    have hnext : ∀ d ∈ "&secret=".toList, urlSafe d = true := List.all_eq_true.1 (by decide)
    simp only [List.mem_append] at hc
    rcases hc with ((hc | hc) | hc) | hc
    · exact hserver c hc
    · rcases mem_quote hc with hu | rfl
      · simp [urlSafe, hu]
      · decide
    · exact hnext c hc
    · simp [urlSafe, hsecret c hc]

end

/-- `validate_base_path` accepts it. -/
def PathAccepted (basePath : String) : Prop := validateBasePath basePath = .ok basePath

/-- `validate_secret` accepts it. -/
def SecretAccepted (secretHex : String) : Prop := ∃ bytes, validateSecret secretHex = .ok bytes

theorem secretAccepted_iff {secretHex : String} :
    SecretAccepted secretHex ↔ isSecret secretHex = true := by
  constructor
  · rintro ⟨bytes, h⟩
    by_contra hs
    rw [validateSecret, if_pos hs] at h
    simp at h
  · intro h
    obtain ⟨bytes, hbytes, -⟩ := validateSecret_ok h
    exact ⟨bytes, hbytes⟩

/-- The links of valid arguments. -/
theorem build_of_accepted {domain basePath secretHex : String} (hdomain : '/' ∉ domain.toList)
    (hpath : PathAccepted basePath) (hsecret : SecretAccepted secretHex) :
    ∃ q : String, build domain basePath secretHex = .ok (address ++ q) ∧
      decode (address ++ q) = some (domain, basePath, secretHex) ∧
      q.toList.count '&' = 1 ∧ q.toList.count '=' = 2 ∧ ∀ c ∈ q.toList, urlSafe c = true := by
  have hsecret := secretAccepted_iff.1 hsecret
  obtain ⟨secret, hclient, hbuild⟩ := build_ok domain hpath hsecret
  refine ⟨_, hbuild, ?_, query_shape fun c hc => clientSecret_unreserved hclient hc⟩
  rw [decode_query, readPair_ok hdomain hpath hsecret hclient]

theorem build_of_refused {basePath secretHex : String} (domain : String)
    (h : ¬ (PathAccepted basePath ∧ SecretAccepted secretHex)) :
    ∃ message, build domain basePath secretHex = .error (.value message) := by
  rw [secretAccepted_iff] at h
  exact build_error h

/-- Whatever has a link is read from it. -/
theorem decode_of_build {domain basePath secretHex link : String} (hdomain : '/' ∉ domain.toList)
    (h : build domain basePath secretHex = .ok link) :
    decode link = some (domain, basePath, secretHex) := by
  by_cases hok : PathAccepted basePath ∧ SecretAccepted secretHex
  · obtain ⟨q, hq, hdecode, -⟩ := build_of_accepted hdomain hok.1 hok.2
    rw [h] at hq
    rw [Except.ok.inj hq]
    exact hdecode
  · obtain ⟨message, hmessage⟩ := build_of_refused domain hok
    rw [h] at hmessage
    simp at hmessage

/-- A device's link is read as the configured domain and base path and the device's secret, and so
are the two fields for entry by hand. Where the link is refused there are no fields either. -/
theorem deviceLink_decodes (cfg : Config) (secretHex : String) (hdomain : '/' ∉ cfg.domain.toList) :
    (PathAccepted cfg.basePath → SecretAccepted secretHex → ∃ d, deviceLink cfg secretHex = .ok d ∧
      decode d.link = some (cfg.domain, cfg.basePath, secretHex) ∧
      readPair d.server d.secret.toList = some (cfg.domain, cfg.basePath, secretHex)) ∧
    (¬ (PathAccepted cfg.basePath ∧ SecretAccepted secretHex) →
      ∃ message, deviceLink cfg secretHex = .error (.value message)) := by
  constructor
  · intro hpath hsecret
    have hdigits := secretAccepted_iff.1 hsecret
    obtain ⟨secret, hclient, hbuild⟩ := build_ok cfg.domain hpath hdigits
    refine ⟨⟨_, _, secret⟩, ?_, decode_of_build hdomain hbuild,
      readPair_ok hdomain hpath hdigits hclient⟩
    rw [deviceLink, hbuild, clientServer_ok cfg.domain hpath, hclient]
    rfl
  · intro h
    obtain ⟨message, hmessage⟩ := build_of_refused cfg.domain h
    refine ⟨message, ?_⟩
    rw [deviceLink, hmessage]
    rfl

/-- A link decodes to what it was built from. So no two links are the same, the query is in order,
and only valid base paths and secrets give a link at all. -/
theorem build_decodes :
    (∀ domain basePath secretHex : String, '/' ∉ domain.toList → PathAccepted basePath →
      SecretAccepted secretHex →
      ∃ q : String, build domain basePath secretHex = .ok (address ++ q) ∧
        decode (address ++ q) = some (domain, basePath, secretHex) ∧
        q.toList.count '&' = 1 ∧ q.toList.count '=' = 2 ∧ ∀ c ∈ q.toList, urlSafe c = true) ∧
    (∀ domain basePath secretHex domain' basePath' secretHex' link : String, '/' ∉ domain.toList →
      '/' ∉ domain'.toList →
      build domain basePath secretHex = .ok link → build domain' basePath' secretHex' = .ok link →
      domain = domain' ∧ basePath = basePath' ∧ secretHex = secretHex') ∧
    ∀ domain basePath secretHex : String, ¬ (PathAccepted basePath ∧ SecretAccepted secretHex) →
      ∃ message, build domain basePath secretHex = .error (.value message) := by
  refine ⟨?_, ?_, fun domain basePath secretHex h => build_of_refused domain h⟩
  · exact fun domain basePath secretHex hdomain hpath hsecret =>
      build_of_accepted hdomain hpath hsecret
  · intro domain basePath secretHex domain' basePath' secretHex' link hdomain hdomain' h h'
    -- both sets of arguments are what the link decodes to
    have heq := (decode_of_build hdomain h).symm.trans (decode_of_build hdomain' h')
    simpa using heq

/-- Under a path of two segments, for a domain outside ASCII. The link of the domain alone is
another one, and a path with an empty segment has none. -/
theorem build_decodes_twoSegments :
    (∃ q : String, build "прокси.рф" "phcf2vfe7zgbrslg/d_1" "8561944064fc730cbfa4473562d8ec59" =
      .ok (address ++ q) ∧
      decode (address ++ q) = some ("прокси.рф", "phcf2vfe7zgbrslg/d_1",
        "8561944064fc730cbfa4473562d8ec59") ∧
      q.toList.count '&' = 1 ∧ q.toList.count '=' = 2 ∧ ∀ c ∈ q.toList, urlSafe c = true) ∧
    build "прокси.рф" "phcf2vfe7zgbrslg/d_1" "8561944064fc730cbfa4473562d8ec59" ≠
      build "прокси.рф" "" "8561944064fc730cbfa4473562d8ec59" ∧
    ∃ message, build "прокси.рф" "phcf2vfe7zgbrslg//d_1" "8561944064fc730cbfa4473562d8ec59" =
      .error (.value message) := by
  have hdomain : '/' ∉ "прокси.рф".toList := by decide +kernel
  have hpath : PathAccepted "phcf2vfe7zgbrslg/d_1" := rfl
  have hsecret : SecretAccepted "8561944064fc730cbfa4473562d8ec59" :=
    secretAccepted_iff.2 (by decide +kernel)
  have hlink := build_decodes.1 _ _ _ hdomain hpath hsecret
  refine ⟨hlink, fun heq => ?_, build_decodes.2.2 _ _ _ fun h => ?_⟩
  · obtain ⟨q, hq, -⟩ := hlink
    have hsame := build_decodes.2.1 _ _ _ _ _ _ _ hdomain hdomain hq (heq.symm.trans hq)
    exact absurd hsame.2.1 (by decide)
  · exact absurd h.1 (by unfold PathAccepted; decide +kernel)

end ClientLinks
end WebProxyPanel
