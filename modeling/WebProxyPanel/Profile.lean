import WebProxyPanel.People
import WebProxyPanel.Maintained
/-!
# What a profile update changes

`ProfileUpdate.applied` is the row an update should leave: each given field has its value, the
others stay, and the two flags of the bot go back to 0 if the Telegram id becomes another one.
`ProfileUpdate.written` is the row the statements leave: they reset the flags whenever an id is
given. `updateProfile_iff` tells the two apart.
-/

namespace WebProxyPanel
namespace Users
open Table Effects

/-- The name that `_clean_name` makes of a given one. -/
def ProfileUpdate.cleanedName (a : ProfileUpdate) : Option String :=
  a.name.bind fun n => (cleanName n).toOption

def ProfileUpdate.applied (a : ProfileUpdate) (u : User) : User :=
  { u with
    name := a.cleanedName.getD u.name
    tgId := a.tgId.getD u.tgId
    tgBotStarted := if a.tgId.getD u.tgId = u.tgId then u.tgBotStarted else 0
    tgBlockedBot := if a.tgId.getD u.tgId = u.tgId then u.tgBlockedBot else 0
    tgUsername := a.tgUsername.getD u.tgUsername
    note := a.note.getD u.note
    maxDevices := a.maxDevicesValue.getD u.maxDevices }

def ProfileUpdate.written (a : ProfileUpdate) (u : User) : User :=
  { a.applied u with
    tgBotStarted := if a.tgId.isSome then 0 else u.tgBotStarted
    tgBlockedBot := if a.tgId.isSome then 0 else u.tgBlockedBot }

/-- An update whose fields are all the stored ones. -/
def ProfileUpdate.ofUser (u : User) : ProfileUpdate :=
  ⟨some u.name, some u.tgId, some u.tgUsername, some u.note, some u.maxDevices⟩

/-- Saving what is stored changes nothing. -/
theorem ProfileUpdate.applied_ofUser {u : User} (h : cleanName u.name = .ok u.name) :
    (ofUser u).applied u = u := by
  simp [applied, cleanedName, ofUser, h, Except.toOption]

/-- The statements reset a flag though the Telegram id stays. -/
def ProfileUpdate.losesFlags (a : ProfileUpdate) (u : User) : Prop :=
  a.tgId = some u.tgId ∧ (u.tgBotStarted ≠ 0 ∨ u.tgBlockedBot ≠ 0)

theorem ProfileUpdate.written_eq_applied {a : ProfileUpdate} {u : User} :
    a.written u = a.applied u ↔ ¬ a.losesFlags u := by
  obtain ⟨_, tgId, _, _, _⟩ := a
  cases tgId with
  | none => simp [written, applied, losesFlags]
  | some t =>
    by_cases ht : t = u.tgId
    · simp [written, applied, losesFlags, ht, eq_comm]
    · simp [written, applied, losesFlags, ht]

/-! ## The statements -/

section Rows
variable {T : Int → Prop} {D db : DB} {userId : Int}

theorem updateUser_updateUser {f g : User → User} (hf : ∀ u, (f u).id = u.id) :
    updateUser userId g (updateUser userId f db) = updateUser userId (fun u => g (f u)) db := by
  simp only [updateUser]
  rw [update_update]
  intro u hu
  simpa [hf u] using hu

theorem ends_rewrite {α : Type} {value : Option α} {f : User → User} {g : α → User → User}
    (hf : ∀ u, (f u).id = u.id) (h : db = updateUser userId f D) :
    (updateField value userId g).Ends T
      (fun _ db' => db' = updateUser userId (fun u => value.elim id g (f u)) D) db := by
  subst h
  cases value with
  | none => exact Sql.Ends.pure rfl
  | some v => exact Sql.Ends.execute fun _ => updateUser_updateUser hf

theorem ends_cleanedField (name : Option String) :
    (cleanField name).Ends T (fun n db' => db' = db ∧ n = name.bind fun n => (cleanName n).toOption)
      db := by
  cases name with
  | none => exact Sql.Ends.pure ⟨rfl, rfl⟩
  | some n =>
    refine Sql.Ends.bind ?_
    cases hn : cleanName n with
    | ok n' => exact Sql.Ends.pure (Sql.Ends.pure ⟨rfl, by simp [hn, Except.toOption]⟩)
    | error e => exact Sql.Ends.raise

/-- The fields one after the other are the row at once. -/
theorem ProfileUpdate.written_eq (a : ProfileUpdate) (u : User) :
    a.maxDevicesValue.elim id (fun n u => { u with maxDevices := n })
      (a.note.elim id (fun t u => { u with note := t })
      (a.tgUsername.elim id (fun t u => { u with tgUsername := t })
        (a.tgId.elim id (fun t u => { u with tgId := t, tgBotStarted := 0, tgBlockedBot := 0 })
          (a.cleanedName.elim id (fun n u => { u with name := n }) u)))) = a.written u := by
  obtain ⟨name, tgId, tgUsername, note, maxDevices⟩ := a
  simp only [written, applied]
  cases hname : ProfileUpdate.cleanedName ⟨name, tgId, tgUsername, note, maxDevices⟩ <;>
    cases tgId <;> cases tgUsername <;> cases note <;> cases maxDevices <;> simp

theorem ends_updateProfileRows (a : ProfileUpdate) :
    (updateProfileRows userId a).Ends T (fun _ db' => ∃ ts, db' =
      DB.addEvent ts "user_updated" (some userId) "" (updateUser userId a.written D)) D := by
  refine Sql.Ends.bind (ends_user fun u hu huid =>
    Sql.Ends.bind ((ends_cleanedField a.name).mono ?_))
  rintro name db ⟨hdb, hname⟩
  have h₀ : D = updateUser userId (fun u => u) D := by simp [updateUser, update]
  rw [hdb]
  refine Sql.Ends.bind ((ends_rewrite (fun _ => rfl) h₀).mono fun _ db₁ h₁ =>
    Sql.Ends.bind (Sql.Ends.query ?_))
  split
  · exact Sql.Ends.raise
  refine Sql.Ends.bind ((ends_rewrite ?_ h₁).mono fun _ db₂ h₂ => ?_)
  · intro u
    cases name <;> rfl
  refine Sql.Ends.bind ((ends_rewrite ?_ h₂).mono fun _ db₃ h₃ => ?_)
  · intro u
    cases name <;> cases a.tgId <;> rfl
  refine Sql.Ends.bind ((ends_rewrite ?_ h₃).mono fun _ db₄ h₄ => ?_)
  · intro u
    cases name <;> cases a.tgId <;> cases a.tgUsername <;> rfl
  split
  · exact Sql.Ends.raise
  refine Sql.Ends.bind ((ends_rewrite ?_ h₄).mono fun _ db₅ h₅ => ?_)
  · intro u
    cases name <;> cases a.tgId <;> cases a.tgUsername <;> cases a.note <;> rfl
  refine ends_logEvent fun ts _ => ⟨ts, ?_⟩
  rw [h₅, hname]
  exact congrArg (fun f => DB.addEvent ts _ _ _ (updateUser userId f D)) (funext a.written_eq)

end Rows

/-! ## The operation -/

section Operation
variable {ok : Allow Action Choice State} {α : Type} {w w' : World} {l l' : Own}

/-- Statements in a transaction of their own commit nothing if they raise. -/
theorem safe_sqlRaises {m : Sql α} (hl : l.inTx = false) :
    Safe sem ok alone free (post (fun _ _ _ => True) fun _ w' _ => w'.db = w.db)
      (transaction (sql m)) w l := by
  refine safe_transaction (B := post (fun _ w₁ l₁ => w₁.db = w.db ∧ ∃ tx, ownTx (w₁, l₁) = some tx)
    fun _ w₁ _ => w₁.db = w.db)
    isRely_alone (fun _ _ => ⟨trivial, trivial⟩) (stable_alone _) (stable_alone _) hl
    (fun w₁ h₁ => ⟨trivial, fun _ _ _ => ?_⟩) ?_ ?_ ?_
  · rw [← show w = w₁ from h₁]
    rfl
  · rintro _ rfl -
    refine Safe.callStable (stable_alone _) ?_
    rintro _ rfl
    refine ⟨trivial, fun r w₂ l₂ hn => ?_⟩
    rcases next_sql rfl hn with ⟨inp, db', -, -, rfl, rfl, ⟨a, -, rfl⟩ | ⟨e, -, rfl⟩⟩ |
        ⟨msg, gone, left, -, rfl, ⟨-, rfl, rfl⟩ | ⟨-, rfl, rfl⟩⟩
    · exact ⟨rfl, _, rfl⟩
    · rfl
    · rfl
    · rfl
  · rintro a w₁ l₁ ⟨hdb, tx, htx⟩
    refine ⟨tx, htx, trivial, trivial, fun _ _ _ => hdb, ?_⟩
    rintro msg left _ - rfl
    exact ⟨tx, htx, hdb⟩
  · intro e w₁ l₁ hdb
    unfold RollsBack
    split
    · exact hdb
    · exact fun _ => hdb

/-- What the call is to do to the database when it returns. -/
structure ProfileSaved (userId : Int) (a : ProfileUpdate) (D D' : DB) : Prop where
  users : D'.users = update (fun u => decide (u.id = userId)) a.applied D.users
  events : ∃ id ts, D'.events = D.events ++ [⟨id, ts, "user_updated", some userId, ""⟩]
  others : { D' with users := D.users, events := D.events } = D

theorem updateProfile_raises {userId : Int} {a : ProfileUpdate} (hl : l.inTx = false) {e : Err}
    (h : sem.Runs ok (updateProfile userId a) (w, l) (.error e) (w', l')) : w'.db = w.db :=
  Safe.runs isRely_alone (safe_sqlRaises hl) h

theorem updateProfile_returns {userId : Int} {a : ProfileUpdate} (hl : l.inTx = false)
    (h : sem.Runs ok (updateProfile userId a) (w, l) (.ok ()) (w', l')) :
    ∃ ts, w'.db = DB.addEvent ts "user_updated" (some userId) ""
      (updateUser userId a.written w.db) := by
  have hends : ∀ D, Ends (fun _ => True) (sql (updateProfileRows userId a))
      (fun _ db' _ => ∃ ts, db' =
      DB.addEvent ts "user_updated" (some userId) "" (updateUser userId a.written D)) D [] :=
        fun D => Ends.sql (ends_updateProfileRows a)
  have hclock : Clocked (fun _ => True) ok := fun _ _ _ _ _ _ _ => trivial
  obtain ⟨-, _, hdb, -⟩ := Safe.runs isRely_alone (Ends.transaction hclock hends hl) h
  exact hdb

/-- The statements leave the row as they should exactly if they reset no flag for nothing. -/
theorem profileSaved_iff {userId : Int} {a : ProfileUpdate} {D D' : DB} {ts : Int}
    (h : D' = DB.addEvent ts "user_updated" (some userId) "" (updateUser userId a.written D)) :
    ProfileSaved userId a D D' ↔ ∀ u ∈ D.users, u.id = userId → ¬ a.losesFlags u := by
  have husers : D'.users = update (fun u => decide (u.id = userId)) a.written D.users := by
    rw [h]; rfl
  have hrows : D'.users = update (fun u => decide (u.id = userId)) a.applied D.users ↔
      ∀ u ∈ D.users, u.id = userId → a.written u = a.applied u := by
    rw [husers, update, update, List.map_inj_left]
    refine forall₂_congr fun u _ => ?_
    by_cases hu : u.id = userId
    · simp [hu]
    · simp [hu]
  simp only [ProfileUpdate.written_eq_applied] at hrows
  constructor
  · exact fun hsaved => hrows.1 hsaved.users
  · intro hkeeps
    refine ⟨hrows.2 hkeeps, ⟨nextRowid (D.events.map (·.id)), ts, ?_⟩, ?_⟩
    · rw [h]
      rfl
    · rw [h]
      rfl

theorem updateProfile_iff {userId : Int} {a : ProfileUpdate} {out : Except Err Unit}
    (hl : l.inTx = false) (h : sem.Runs ok (updateProfile userId a) (w, l) out (w', l')) :
    (∀ e, out = .error e → w'.db = w.db) ∧
      (out = .ok () → (ProfileSaved userId a w.db w'.db ↔ ∀ u ∈ w.db.users, u.id = userId →
        ¬ a.losesFlags u)) := by
  refine ⟨?_, ?_⟩
  · rintro e rfl
    exact updateProfile_raises hl h
  · rintro rfl
    obtain ⟨ts, hdb⟩ := updateProfile_returns hl h
    exact profileSaved_iff hdb

/-- The bot has noted that the sample user has started it. -/
def startedWorld : World :=
  { World.sample with db := updateUser 1 (fun u => { u with tgId := some 7, tgBotStarted := 1 }) World.sample.db }

/-- The panel saves the Telegram id that is stored. -/
def sameId : ProfileUpdate := ⟨none, some (some 7), none, none, none⟩

def newNote : ProfileUpdate := ⟨none, none, none, some "paid", none⟩

def updateOnce : List Choice := succeed 2 ++ [.inputs ⟨[0], []⟩] ++ succeed 1

theorem updateOnce_plays (a : ProfileUpdate) (h : a = sameId ∨ a = newNote) :
    ((sem.play anything updateOnce (updateProfile 1 a) (startedWorld, Own.idle 0)).bind fun x =>
      x.1.outcome?.map fun out =>
      (out, x.2.1.db.users.map fun u => (u.tgId, u.tgBotStarted))) =
        some (.ok (), [(some 7, if a = sameId then 0 else 1)]) := by
  rcases h with rfl | rfl
  · decide +kernel
  · decide +kernel

theorem startedWorld_runs (a : ProfileUpdate) (h : a = sameId ∨ a = newNote) : ∃ w' l',
    sem.Runs anyFault (updateProfile 1 a) (startedWorld, Own.idle 0) (.ok ()) (w', l') := by
  obtain ⟨⟨p, w', l'⟩, hplay, hx⟩ := Option.bind_eq_some_iff.1 (updateOnce_plays a h)
  obtain ⟨out, hout, hx⟩ := Option.map_eq_some_iff.1 hx
  obtain ⟨rfl, -⟩ := Prod.mk.inj hx
  obtain rfl : p = .ended _ := Prog.outcome?_eq_some.1 hout
  exact ⟨w', l', Sem.Steps.mono (fun _ _ _ _ _ => trivial) (Sem.Steps.of_play hplay)⟩

theorem updateProfile_iff_note : ∃ w' : World, ProfileSaved 1 newNote startedWorld.db w'.db := by
  obtain ⟨w', l', hrun⟩ := startedWorld_runs newNote (.inr rfl)
  refine ⟨w', ((updateProfile_iff rfl hrun).2 rfl).2 fun u _ _ => ?_⟩
  simp [ProfileUpdate.losesFlags, newNote]

theorem updateProfile_losesFlag :
    ∃ w' l', sem.Runs anyFault (updateProfile 1 sameId) (startedWorld, Own.idle 0)
      (.ok ()) (w', l') ∧
    ¬ ProfileSaved 1 sameId startedWorld.db w'.db := by
  obtain ⟨w', l', hrun⟩ := startedWorld_runs sameId (.inl rfl)
  refine ⟨w', l', hrun, fun hsaved => ?_⟩
  obtain ⟨ts, hdb⟩ := updateProfile_returns rfl hrun
  have hkeeps := (profileSaved_iff hdb).1 hsaved
  have hstarted : ∃ u ∈ startedWorld.db.users, u.id = 1 ∧ some u.tgId = sameId.tgId ∧
      u.tgBotStarted = 1 := by decide +kernel
  obtain ⟨u, hu, hid, htg, hflag⟩ := hstarted
  exact hkeeps u hu hid ⟨htg.symm, .inl (by omega)⟩

end Operation

end Users
end WebProxyPanel
