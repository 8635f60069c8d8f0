import WebProxyPanel.Effect
import WebProxyPanel.TxLock
import WebProxyPanel.Lib.JsonText
/-!
# What the journal tells

`events` is the only place that remembers who had access and when. `replay` reads it back as an
auditor would, entry by entry and from the text of each one; `Chronicle` says that this gives the
tables as they are.

| here | there |
| --- | --- |
| `Account` | what is told about one user: enabled or why not, the devices, the last expiry and limit that were set |
| `tell` | one `log_event` of users.py:141-310 |
| `Told` | the promise of a transaction at its COMMIT: it only appends, and what it appends tells what it has done |

An expiry or limit that `create_user` gives is in no entry, so an account knows of none until one is
set.
-/

namespace WebProxyPanel
namespace Journal
open Table Users

/-! ## Reading an entry -/

/-- The first word of the details that starts with `key`, without the key. -/
def field (key details : String) : Option String :=
  ((splitWords [] details.toList).find? fun w => key.toList.isPrefixOf w).map
    fun w => String.ofList (w.drop key.toList.length)

structure Account where
  enabled : Bool
  reason : Option String
  /-- the numbers of the devices, as they are written -/
  devices : List String
  expiry : Option String
  limit : Option String
  reset : Option String
deriving DecidableEq, Repr

/-- An entry about a user who is there. -/
def Account.tell (a : Account) (kind details : String) : Account :=
  if kind = "device_added" then { a with devices := a.devices ++ (field "device=" details).toList }
  else if kind = "device_deleted" then
    { a with devices := a.devices.filter fun d => some d ≠ field "device=" details }
  else if kind = "user_disabled" then { a with enabled := false, reason := field "reason=" details }
  else if kind = "user_enabled" then { a with enabled := true, reason := none }
  else if kind = "user_expiry_set" then { a with expiry := field "expires_at=" details }
  else if kind = "user_limit_set" then
    { a with limit := field "limit=" details, reset := field "reset=" details }
  else a

def tellUser (kind details : String) (a : Option Account) : Option Account :=
  if kind = "user_created" then
    (field "device=" details).map fun d => ⟨true, none, [d], none, none, none⟩
  else if kind = "user_deleted" then none
  else a.map fun a => a.tell kind details

abbrev Accounts := Int → Option Account

def tell (A : Accounts) (e : Event) : Accounts :=
  match e.userId with
  | none => A
  | some i => Function.update A i (tellUser e.kind e.details (A i))

/-- Everything that the entries tell, from an empty installation on. -/
def replay (es : List Event) : Accounts := es.foldl tell fun _ => none

/-- `SELECT * FROM events ORDER BY id` -/
def journal (db : DB) : List Event := orderBy (·.id) db.events

/-! ## Words of the details -/

def OneWord (cs : List Char) : Prop := ∀ c ∈ cs, isSpace c = false

theorem splitWords_word {w : List Char} (hw : OneWord w) : ∀ acc : List Char, acc ++ w ≠ [] →
    splitWords acc w = [acc ++ w] ∧ ∀ rest, splitWords acc (w ++ ' ' :: rest) = (acc ++ w) ::
      splitWords [] rest := by
  induction w with
  | nil =>
    intro acc hne
    rw [List.append_nil] at hne
    refine ⟨by rw [splitWords, if_neg hne, List.append_nil], fun rest => ?_⟩
    rw [List.nil_append, splitWords, if_pos (by decide), if_neg hne, List.append_nil]
  | cons c w ih =>
    intro acc _
    have hc : isSpace c = false := hw c List.mem_cons_self
    obtain ⟨hend, hrest⟩ :=
      ih (fun c' hc' => hw c' (List.mem_cons_of_mem _ hc')) (acc ++ [c]) (by simp)
    rw [List.append_assoc, List.singleton_append] at hend hrest
    refine ⟨by rw [splitWords, hc, if_neg Bool.false_ne_true, hend], fun rest => ?_⟩
    rw [List.cons_append, splitWords, hc, if_neg Bool.false_ne_true, hrest]

section Field
variable {key text : String}

theorem oneWord_append {cs ds : List Char} (hc : OneWord cs) (hd : OneWord ds) :
    OneWord (cs ++ ds) :=
  fun c h => (List.mem_append.1 h).elim (hc c) (hd c)

theorem find_key (ws : List (List Char)) :
    (((key ++ text).toList :: ws).find? fun w => key.toList.isPrefixOf w) =
      some (key ++ text).toList := by
  rw [List.find?_cons_of_pos]
  simp [String.toList_append]

theorem drop_key : String.ofList ((key ++ text).toList.drop key.toList.length) = text := by
  rw [String.toList_append, List.drop_left, String.ofList_toList]

theorem ne_nil_of_key (hkey : key ≠ "") : (key ++ text).toList ≠ [] := by
  rw [String.toList_append]
  exact List.append_ne_nil_of_left_ne_nil (by simpa using hkey) _

/-- The only word. -/
theorem field_word (hkey : key ≠ "") (hword : OneWord (key ++ text).toList) :
    field key (key ++ text) = some text := by
  unfold field
  rw [(splitWords_word hword [] (ne_nil_of_key hkey)).1, List.nil_append, find_key,
    Option.map_some, drop_key]

/-- The first word, whatever comes after it. -/
theorem field_first (sep : String) {cs : List Char} (hsep : sep.toList = ' ' :: cs)
    (hkey : key ≠ "") (hword : OneWord (key ++ text).toList) (rest : String) :
    field key (key ++ text ++ sep ++ rest) = some text := by
  unfold field
  rw [String.append_assoc, String.toList_append, String.toList_append (s := sep), hsep,
    List.cons_append,
    (splitWords_word hword [] (ne_nil_of_key hkey)).2, List.nil_append, find_key,
    Option.map_some, drop_key]

/-- The second word, if the first has another key. -/
theorem field_second {first : String} (sep : String) (hsep : sep.toList = ' ' :: key.toList)
    (hkey : key ≠ "") (hne : first ≠ "") (hfirst : OneWord first.toList)
    (hother : key.toList.isPrefixOf first.toList = false) (hword : OneWord (key ++ text).toList) :
    field key (first ++ sep ++ text) = some text := by
  unfold field
  rw [String.append_assoc, String.toList_append, String.toList_append (s := sep), hsep,
    List.cons_append,
    ← String.toList_append (s := key), (splitWords_word hfirst [] (by simpa using hne)).2,
    List.nil_append,
    (splitWords_word hword [] (ne_nil_of_key hkey)).1, List.nil_append,
    List.find?_cons_of_neg (by rw [hother]; simp), find_key,
    Option.map_some, drop_key]

end Field

/-! ## The texts of users.py -/

theorem isSpace_digitChar : ∀ d < 10, isSpace (Nat.digitChar d) = false := by decide

theorem oneWord_digits {n : Nat} : OneWord (Nat.toDigits 10 n) := by
  intro c hc
  obtain ⟨d, hd, rfl⟩ :=
    Decimal.exists_digitChar (Nat.isDigit_of_mem_toDigits (by decide) (by decide) hc)
  exact isSpace_digitChar d hd

theorem oneWord_toString (i : Int) : OneWord (toString i).toList := by
  cases i with
  | ofNat n =>
    rw [JsonText.toString_ofNat]
    exact oneWord_digits
  | negSucc n =>
    rw [JsonText.toString_negSucc]
    intro c hc
    rcases List.mem_cons.1 hc with rfl | hc
    · decide
    · exact oneWord_digits c hc

theorem oneWord_orText {n : Option Int} {text : String} (h : OneWord text.toList) :
    OneWord (orText n text).toList := by
  unfold orText
  cases n with
  | none => exact h
  | some t =>
    dsimp only
    split
    · exact h
    · exact oneWord_toString t

theorem oneWord_key {key text : String} (hkey : OneWord key.toList) (h : OneWord text.toList) :
    OneWord (key ++ text).toList := by
  rw [String.toList_append]
  exact oneWord_append hkey h

instance (cs : List Char) : Decidable (OneWord cs) :=
  List.decidableBAll (fun c => isSpace c = false) cs

/-- `"device=%d by=%s"`; the caller of `delete_device` may give any text after it. -/
theorem field_device (d : Int) (by_ : String) :
    field "device=" ("device=" ++ toString d ++ " by=" ++ by_) = some (toString d) :=
  field_first " by=" rfl (by decide) (oneWord_key (by decide) (oneWord_toString d)) by_

/-- `"by=%s device=%d"`; `created_by` has been checked. -/
theorem field_created {text : String} {createdBy : CreatedBy}
    (h : createdByOf text = some createdBy) (d : Int) :
    field "device=" ("by=" ++ text ++ " device=" ++ toString d) = some (toString d) := by
  have hword : OneWord ("by=" ++ text).toList ∧ "by=" ++ text ≠ "" ∧
      "device=".toList.isPrefixOf ("by=" ++ text).toList = false := by
    unfold createdByOf at h
    by_cases hpanel : text = "panel"
    · subst hpanel
      decide
    by_cases hmanual : text = "bot_manual"
    · subst hmanual
      decide
    by_cases hauto : text = "bot_auto"
    · subst hauto
      decide
    · simp [hpanel, hmanual, hauto] at h
  obtain ⟨hfirst, hne, hother⟩ := hword
  exact field_second " device=" rfl (by decide) hne hfirst hother
    (oneWord_key (by decide) (oneWord_toString d))

theorem field_reason (r : Reason) :
    field "reason=" ("reason=" ++ Reason.text r) = some (Reason.text r) := by
  refine field_word (by decide) ?_
  cases r <;> decide

theorem field_expiry (n : Option Int) :
    field "expires_at=" ("expires_at=" ++ orText n "never") = some (orText n "never") :=
  field_word (by decide) (oneWord_key (by decide) (oneWord_orText (by decide)))

/-- `"limit=%s reset=%s"` -/
theorem field_limit (n : Option Int) {text : String} {reset : Reset}
    (h : resetOf text = some reset) :
    field "limit=" ("limit=" ++ orText n "none" ++ " reset=" ++ text) = some (orText n "none") ∧
      field "reset=" ("limit=" ++ orText n "none" ++ " reset=" ++ text) = some text := by
  have hlimit : OneWord ("limit=" ++ orText n "none").toList :=
    oneWord_key (by decide) (oneWord_orText (by decide))
  have hreset : OneWord ("reset=" ++ text).toList := by
    unfold resetOf at h
    by_cases hnever : text = "never"
    · subst hnever
      decide
    by_cases hmonthly : text = "monthly"
    · subst hmonthly
      decide
    · simp [hnever, hmonthly] at h
  have hother : "reset=".toList.isPrefixOf ("limit=" ++ orText n "none").toList = false := by
    rw [String.toList_append]
    rfl
  have hne : "limit=" ++ orText n "none" ≠ "" :=
    fun he => ne_nil_of_key (by decide) (congrArg String.toList he)
  exact ⟨field_first " reset=" rfl (by decide) hlimit _,
    field_second " reset=" rfl (by decide) hne hlimit hother hreset⟩

/-! ## Accounts and tables -/

structure Matches (db : DB) (a : Account) (u : User) : Prop where
  enabled : a.enabled = decide (u.enabled ≠ 0)
  reason : a.reason = u.disabledReason.map Reason.text
  devices : a.devices = (db.devices.filter (·.userId = u.id)).map fun d => toString d.id
  expiry : ∀ t ∈ a.expiry, t = orText u.expiresAt "never"
  limit : ∀ t ∈ a.limit, t = orText u.trafficLimitBytes "none"
  reset : ∀ t ∈ a.reset, resetOf t = some u.trafficReset

/-- There is an account for each user, and for nobody else. -/
structure Agree (A : Accounts) (db : DB) : Prop where
  users : ∀ u ∈ db.users, ∃ a, A u.id = some a ∧ Matches db a u
  nobody : ∀ i, i ∉ db.users.map (·.id) → A i = none

section Agree
variable {A : Accounts} {db db' : DB} {i : Int}

theorem Matches.congr {a : Account} {u u' : User} (h : Matches db a u)
    (hstanding : u'.standing = u.standing) (hreset : u'.trafficReset = u.trafficReset)
    (hdevices : db'.devices.filter (·.userId = u.id) = db.devices.filter (·.userId = u.id)) :
    Matches db' a u' := by
  obtain ⟨hid, hen, hreason, hexp, hlimit, -, -⟩ := Standing.mk.inj hstanding
  refine ⟨?_, ?_, ?_, ?_, ?_, ?_⟩
  · rw [hen]
    exact h.enabled
  · rw [hreason]
    exact h.reason
  · rw [hid, hdevices]
    exact h.devices
  · rw [hexp]
    exact h.expiry
  · rw [hlimit]
    exact h.limit
  · rw [hreset]
    exact h.reset

/-- An entry about user `i`, whose row or devices have changed; those of the others have not. -/
theorem Agree.change {g : Account → Account} (h : Agree A db)
    (hids : db'.users.map (·.id) = db.users.map (·.id))
    (hothers : ∀ u ∈ db'.users, u.id ≠ i → u ∈ db.users ∧ db'.devices.filter (·.userId = u.id) =
      db.devices.filter (·.userId = u.id))
    (hown : ∀ u' ∈ db'.users, u'.id = i → ∃ u ∈ db.users, u.id = i ∧ ∀ a, Matches db a u →
      Matches db' (g a) u') :
    Agree (Function.update A i ((A i).map g)) db' where
  users u' hu' := by
    by_cases hi : u'.id = i
    · obtain ⟨u, hu, huid, hm⟩ := hown u' hu' hi
      obtain ⟨a, ha, hma⟩ := h.users u hu
      refine ⟨g a, ?_, hm a hma⟩
      rw [huid] at ha
      rw [hi, Function.update_self, ha, Option.map_some]
    · obtain ⟨hu, hdevices⟩ := hothers u' hu' hi
      obtain ⟨a, ha, hma⟩ := h.users u' hu
      exact ⟨a, by rw [Function.update_of_ne hi, ha], hma.congr rfl rfl hdevices⟩
  nobody j hj := by
    rw [hids] at hj
    by_cases hji : j = i
    · subst hji
      rw [Function.update_self, h.nobody j hj, Option.map_none]
    · rw [Function.update_of_ne hji, h.nobody j hj]

theorem Agree.same (h : Agree A db) (husers : db'.users = db.users)
    (hdevices : db'.devices = db.devices) : Agree A db' where
  users u hu := by
    obtain ⟨a, ha, hm⟩ := h.users u (husers ▸ hu)
    exact ⟨a, ha, hm.congr rfl rfl (by rw [hdevices])⟩
  nobody j hj := h.nobody j (husers ▸ hj)

/-- One row is changed. -/
theorem Agree.row {f : User → User} {g : Account → Account} (h : Agree A db)
    (hid : ∀ u, (f u).id = u.id) (hm : ∀ a u, Matches db a u → Matches db (g a) (f u))
    (husers : db'.users = update (fun u => decide (u.id = i)) f db.users)
    (hdevices : db'.devices = db.devices) : Agree (Function.update A i ((A i).map g)) db' := by
  have hrow : ∀ u' ∈ db'.users, ∃ u ∈ db.users, u.id = u'.id ∧ u' = if u.id = i then
      f u else u := by
    intro u' hu'
    rw [husers] at hu'
    obtain ⟨u, hu, he⟩ := mem_update.1 hu'
    simp only [decide_eq_true_eq] at he
    refine ⟨u, hu, ?_, he.symm⟩
    rw [← he]
    split
    · exact (hid u).symm
    · rfl
  refine h.change (husers ▸ ids_update hid i db.users) (fun u' hu' hne => ?_) fun u' hu' he => ?_
  · obtain ⟨u, hu, huid, rfl⟩ := hrow u' hu'
    rw [if_neg (huid ▸ hne)]
    exact ⟨hu, by rw [hdevices]⟩
  · obtain ⟨u, hu, huid, hif⟩ := hrow u' hu'
    rw [if_pos (huid.trans he)] at hif
    subst hif
    exact ⟨u, hu, huid.trans he, fun a ha => (hm a u ha).congr rfl rfl (by rw [hdevices])⟩

/-- Devices of one user come or go. -/
theorem Agree.devices {g : Account → Account} (h : Agree A db) (husers : db'.users = db.users)
    (hothers : ∀ j ≠ i, db'.devices.filter (·.userId = j) = db.devices.filter (·.userId = j))
    (hg : ∀ a, g a = { a with devices := (g a).devices })
    (hown : ∀ a : Account, a.devices = (db.devices.filter (·.userId = i)).map
      (fun d => toString d.id) → (g a).devices = (db'.devices.filter (·.userId = i)).map fun d =>
        toString d.id) :
    Agree (Function.update A i ((A i).map g)) db' := by
  refine h.change (by rw [husers]) (fun u hu hne => ⟨husers ▸ hu, hothers u.id hne⟩) fun u hu he =>
    ?_
  refine ⟨u, husers ▸ hu, he, fun a ha => ?_⟩
  rw [hg a]
  refine ⟨ha.enabled, ha.reason, ?_, ha.expiry, ha.limit, ha.reset⟩
  show (g a).devices = _
  rw [he]
  exact hown a (he ▸ ha.devices)

/-- A user with a first device. -/
theorem Agree.created {u : User} {d : Device} (h : Agree A db) (hc : db.Consistent)
    (hid : u.id = nextRowid (db.users.map (·.id))) (hen : u.enabled = 1)
    (hreason : u.disabledReason = none) (hd : d.userId = u.id)
    (husers : db'.users = db.users ++ [u]) (hdevices : db'.devices = db.devices ++ [d]) :
    Agree (Function.update A u.id (some ⟨true, none, [toString d.id], none, none, none⟩)) db' := by
  have hnew : u.id ∉ db.users.map (·.id) := hid ▸ nextRowid_notMem _
  have hnone : db.devices.filter (·.userId = u.id) = [] := by
    refine List.filter_eq_nil_iff.2 fun d' hd' he => hnew ?_
    have hmem := hc.deviceUser d' hd'
    rwa [of_decide_eq_true he] at hmem
  refine ⟨fun x hx => ?_, fun j hj => ?_⟩
  · rw [husers, List.mem_append, List.mem_singleton] at hx
    rcases hx with hx | rfl
    · have hne : x.id ≠ u.id := fun he => hnew (he ▸ List.mem_map_of_mem hx)
      obtain ⟨a, ha, hm⟩ := h.users x hx
      refine ⟨a, by rw [Function.update_of_ne hne, ha], hm.congr rfl rfl ?_⟩
      rw [hdevices, List.filter_append, List.filter_cons_of_neg (by simpa [hd] using Ne.symm hne),
        List.filter_nil, List.append_nil]
    · refine ⟨_, Function.update_self _ _ _, ?_, ?_, ?_, by simp, by simp, by simp⟩
      · simp [hen]
      · rw [hreason, Option.map_none]
      · rw [hdevices, List.filter_append, hnone, List.nil_append,
          List.filter_cons_of_pos (by simpa using hd), List.filter_nil, List.map_singleton]
  · rw [husers, List.map_append, List.mem_append, not_or, List.map_singleton, List.mem_singleton]
      at hj
    rw [Function.update_of_ne hj.2, h.nobody j hj.1]

/-- A user goes with all devices. -/
theorem Agree.deleted (h : Agree A db)
    (husers : db'.users = delete (fun u => decide (u.id = i)) db.users)
    (hdevices : db'.devices = delete (fun d => decide (d.userId = i)) db.devices) :
    Agree (Function.update A i none) db' := by
  refine ⟨fun u hu => ?_, fun j hj => ?_⟩
  · rw [husers, mem_delete] at hu
    have hne : u.id ≠ i := by simpa using hu.2
    obtain ⟨a, ha, hm⟩ := h.users u hu.1
    refine ⟨a, by rw [Function.update_of_ne hne, ha], hm.congr rfl rfl ?_⟩
    rw [hdevices, delete, List.filter_filter]
    refine List.filter_congr fun d _ => ?_
    by_cases he : d.userId = u.id
    · simp [he, hne]
    · simp [he]
  · by_cases hji : j = i
    · rw [hji, Function.update_self]
    · rw [Function.update_of_ne hji]
      refine h.nobody j fun hmem => hj ?_
      obtain ⟨u, hu, rfl⟩ := List.mem_map.1 hmem
      rw [husers]
      exact List.mem_map_of_mem (mem_delete.2 ⟨hu, by simpa using hji⟩)

end Agree

/-! ## What a transaction promises -/

/-- Entries are numbered in the order in which they are written. -/
def Ordered (db : DB) : Prop := (db.events.map (·.id)).Pairwise (· < ·)

structure Told (D D' : DB) : Prop where
  consistent : D.Consistent → D'.Consistent
  ordered : Ordered D → Ordered D'
  entries : ∃ es, D'.events = D.events ++ es ∧
    (D.Consistent → ∀ A, Agree A D → Agree (es.foldl tell A) D')

section Told
variable {D D' D'' : DB}

theorem Told.quiet (hc : D.Consistent → D'.Consistent) (hevents : D'.events = D.events)
    (husers : D'.users = D.users) (hdevices : D'.devices = D.devices) : Told D D' := by
  refine ⟨hc, fun h => ?_,
    [], by rw [hevents, List.append_nil], fun _ A h => h.same husers hdevices⟩
  unfold Ordered
  rw [hevents]
  exact h

theorem Told.refl (D : DB) : Told D D := .quiet id rfl rfl rfl

theorem Told.trans (h : Told D D') (h' : Told D' D'') : Told D D'' := by
  obtain ⟨es, he, hA⟩ := h.entries
  obtain ⟨es', he', hA'⟩ := h'.entries
  refine ⟨h'.consistent ∘ h.consistent, h'.ordered ∘ h.ordered,
    es ++ es', by rw [he', he, List.append_assoc], fun hD A hagree => ?_⟩
  rw [List.foldl_append]
  exact hA' (h.consistent hD) _ (hA hD A hagree)

theorem Ordered.addEvent {ts : Int} {kind details : String} {userId : Option Int} {db : DB}
    (h : Ordered db) : Ordered (DB.addEvent ts kind userId details db) := by
  unfold Ordered DB.addEvent at *
  rw [List.map_append, List.pairwise_append]
  refine ⟨h, by simp, fun i hi j hj => ?_⟩
  rw [List.map_singleton, List.mem_singleton] at hj
  exact hj ▸ lt_nextRowid hi

/-- One entry about a user, after the tables have been changed. -/
theorem Told.entry {ts i : Int} {kind details : String} {db : DB}
    (hc : (DB.addEvent ts kind (some i) details db).Consistent) (hevents : db.events = D.events)
    (h : D.Consistent → ∀ A, Agree A D →
      Agree (Function.update A i (tellUser kind details (A i))) db) :
    Told D (DB.addEvent ts kind (some i) details db) := by
  refine ⟨fun _ => hc, fun hD => Ordered.addEvent ?_, [_], congrArg (· ++ _) hevents, fun hD A hA =>
    (h hD A hA).same rfl rfl⟩
  unfold Ordered
  rw [hevents]
  exact hD

end Told

end Journal
end WebProxyPanel
