/-
What account maintenance can promise.

Neither promise of the script holds of every run.  An account is reminded only if a run
finds it in its warning band with nothing that shelters it: no login, no live token, no
content, not verified, not suspended, a plain user.  All of these can be lost later, so
an account that was sheltered while its band passed is deleted unreminded; `Quiet` says
which requests on an account lead there.  And the ids to delete are selected once, so a
request served between the selection and the delete is overlooked; `Undisturbed` says
which.  `request_cases` is the only place that looks at what a request does.
-/
import Aurweb.AccountMaint
import Aurweb.Proofs.Accounts

namespace Aurweb.AccountMaint

/-! ### What a request does to `Users` -/

/-- A request that writes the row `u`, and what it makes of it. -/
inductive Touch (cfg : Config) (db : Db) (now : Nat) : Request → User → (User → User) → Prop
  | login {u : User} (h : u.suspended = false) :
      Touch cfg db now (.login u.id) u
        fun u => { u with lastLogin := timestamp now, inactivityTS := 0 }
  | sshLogin {u : User} {addr : String} (h : u.suspended = false) :
      Touch cfg db now (.sshLogin u.id addr) u
        fun u => { u with lastSSHLogin := timestamp now, lastSSHLoginIPAddress := some addr }
  | verify {u : User} {token : String}
      (hfind : db.users.find? (·.emailVerificationToken == some token) = some u)
      (hverified : u.emailVerified = false) (hlive : isExpired u now = false) :
      Touch cfg db now (.verify token) u
        fun u => { u with
          emailVerified := true
          emailVerificationToken := none
          emailVerificationExpiry := none }
  | resend {u : User} {editor : Nat} {token : String} (hverified : u.emailVerified = false)
      (hcool : inCooldown cfg u now = false) :
      Touch cfg db now (.resend editor u.id token) u (User.issue cfg token now)
  | edit {u editor : User} {form : AccountForm} {token : String} {uid : Nat}
      (heditor : db.user? uid = some editor) (hmay : mayEdit cfg editor u form now = true) :
      Touch cfg db now (.edit uid u.id form token) u (User.edited cfg form token now)
  | editLogin {u editor : User} {form : AccountForm} {token : String} {uid : Nat}
      (heditor : db.user? uid = some editor) (hmay : mayEdit cfg editor u form now = true)
      (hpass : form.newPassword = true) (hself : uid = u.id) :
      Touch cfg db now (.edit uid u.id form token) u
        fun u => { u.edited cfg form token now with lastLogin := timestamp now, inactivityTS := 0 }

theorem Touch.id {cfg : Config} {db : Db} {now : Nat} {r : Request} {u : User} {f : User → User}
    (h : Touch cfg db now r u f) (w : User) : (f w).id = w.id := by
  cases h <;> simp

theorem Touch.registrationTS {cfg : Config} {db : Db} {now : Nat} {r : Request} {u : User}
    {f : User → User} (h : Touch cfg db now r u f) (w : User) :
    (f w).registrationTS = w.registrationTS := by
  have hedit : ∀ form token, (w.edited cfg form token now).registrationTS = w.registrationTS := by
    intro form token
    unfold User.edited
    split <;> rfl
  cases h <;> simp [hedit, User.issue]

theorem updateUser_updateUser (db : Db) (uid : Nat) {f g : User → User} (hf : ∀ u, (f u).id = u.id) :
    updateUser (updateUser db uid f) uid g = updateUser db uid fun u => g (f u) := by
  have hrows := Table.update_update (p := (·.id == uid)) (f := f) (g := g)
    (fun u => by rw [hf]) db.users
  simp only [updateUser, hrows]

theorem login_cases (db : Db) (uid now : Nat) :
    Aurweb.login db uid now = db ∨ Aurweb.login db uid now =
      updateUser db uid fun u => { u with lastLogin := timestamp now, inactivityTS := 0 } := by
  unfold Aurweb.login
  split
  · exact Or.inl rfl
  · split
    · exact Or.inl rfl
    · exact Or.inr rfl

/-- **What a request can do**: nothing, a new account, one row of `Users`, or content. -/
theorem request_cases (cfg : Config) (db : Db) (now : Nat) (r : Request) :
    r.handle cfg db now = db ∨
      (∃ username email token, r = .register username email token) ∨
      (∃ u f, u ∈ db.users ∧ Touch cfg db now r u f ∧ r.handle cfg db now = updateUser db u.id f) ∨
      ∃ after, r = .content after := by
  cases r with
  | register username email token => exact Or.inr (Or.inl ⟨_, _, _, rfl⟩)
  | content after => exact Or.inr (Or.inr (Or.inr ⟨after, rfl⟩))
  | login uid =>
      simp only [Request.handle, Aurweb.login]
      cases hu : db.user? uid with
      | none => exact Or.inl rfl
      | some u =>
          obtain ⟨hmem, rfl⟩ := Db.user?_mem hu
          cases hs : u.suspended with
          | true => exact Or.inl (by simp [hs])
          | false =>
              exact Or.inr (Or.inr (Or.inl ⟨u, _, hmem, .login hs, by simp [hs]⟩))
  | sshLogin uid addr =>
      simp only [Request.handle, logSSHLogin]
      cases hu : db.user? uid with
      | none => exact Or.inl rfl
      | some u =>
          obtain ⟨hmem, rfl⟩ := Db.user?_mem hu
          cases hs : u.suspended with
          | true => exact Or.inl (by simp [hs])
          | false =>
              exact Or.inr (Or.inr (Or.inl ⟨u, _, hmem, .sshLogin hs, by simp [hs]⟩))
  | verify token =>
      simp only [Request.handle, accountVerify]
      cases hfind : db.users.find? (·.emailVerificationToken == some token) with
      | none => exact Or.inl rfl
      | some u =>
          cases hrefused : u.emailVerified || isExpired u now with
          | true => exact Or.inl (by simp [hrefused])
          | false =>
              obtain ⟨hverified, hlive⟩ := Bool.or_eq_false_iff.mp hrefused
              exact Or.inr (Or.inr (Or.inl ⟨u, _, List.mem_of_find?_eq_some hfind,
                .verify hfind hverified hlive, by simp [hrefused]⟩))
  | resend editorID uid token =>
      simp only [Request.handle, accountVerifyResend]
      cases he : db.user? editorID with
      | none => exact Or.inl rfl
      | some editor =>
          cases hu : db.user? uid with
          | none => exact Or.inl rfl
          | some u =>
              obtain ⟨hmem, rfl⟩ := Db.user?_mem hu
              cases hrefused : !canEditUser editor u || u.emailVerified || inCooldown cfg u now with
              | true => exact Or.inl (by simp [hrefused])
              | false =>
                  obtain ⟨hleft, hcool⟩ := Bool.or_eq_false_iff.mp hrefused
                  exact Or.inr (Or.inr (Or.inl ⟨u, _, hmem,
                    .resend (Bool.or_eq_false_iff.mp hleft).2 hcool, by simp [hrefused]⟩))
  | edit editorID uid form token =>
      simp only [Request.handle, accountEditPost]
      cases he : db.user? editorID with
      | none => exact Or.inl rfl
      | some editor =>
          cases hu : db.user? uid with
          | none => exact Or.inl rfl
          | some u =>
              obtain ⟨hmem, rfl⟩ := Db.user?_mem hu
              cases hmay : mayEdit cfg editor u form now with
              | false => exact Or.inl (by simp [hmay])
              | true =>
                  refine Or.inr (Or.inr (Or.inl ?_))
                  cases hlogin : form.newPassword && editorID == u.id with
                  | false => exact ⟨u, _, hmem, .edit he hmay, by simp [hmay]⟩
                  | true =>
                      obtain ⟨hpass, hself⟩ : form.newPassword = true ∧ editorID = u.id := by
                        simpa using hlogin
                      rcases login_cases (updateUser db u.id (User.edited cfg form token now))
                        u.id now with hsame | hlogged
                      · exact ⟨u, _, hmem, .edit he hmay, by simp [hmay, hsame]⟩
                      · refine ⟨u, _, hmem, .editLogin he hmay hpass hself, ?_⟩
                        rw [← updateUser_updateUser db u.id (edited_id cfg form token now)
                          (g := fun u => { u with lastLogin := timestamp now, inactivityTS := 0 })]
                        simp [hmay, hlogged]

/-- Only requests on content change who owns any. -/
theorem ownsContent_request {cfg : Config} {db : Db} {now : Nat} {r : Request}
    (h : ∀ after, r ≠ .content after) (i : Nat) :
    ownsContent (r.handle cfg db now) i = ownsContent db i := by
  rcases request_cases cfg db now r with hsame | ⟨username, email, token, rfl⟩ |
    ⟨u, f, -, -, heq⟩ | ⟨after, rfl⟩
  · rw [hsame]
  · rfl
  · rw [heq]
    rfl
  · exact absurd rfl (h after)

/-! ### Keys -/

/-- `Users.ID` is a key, and every id in use was handed out by the counter. -/
structure Keyed (db : Db) : Prop where
  nodup : (db.users.map (·.id)).Nodup
  fresh : ∀ u ∈ db.users, u.id < db.nextID

theorem Keyed.eq_of_id {db : Db} (h : Keyed db) {u w : User} (hu : u ∈ db.users)
    (hw : w ∈ db.users) (hid : u.id = w.id) : u = w :=
  List.inj_on_of_nodup_map h.nodup hu hw hid

theorem Keyed.update {db db' : Db} (h : Keyed db) {p : User → Bool} {f : User → User}
    (hf : ∀ u, (f u).id = u.id) (husers : db'.users = Table.update p f db.users)
    (hnext : db.nextID ≤ db'.nextID) : Keyed db' where
  nodup := by
    rw [husers, Table.map_update hf]
    exact h.nodup
  fresh u' hu' := by
    rw [husers] at hu'
    obtain ⟨u, hu, rfl⟩ := Table.mem_update.mp hu'
    have hid : (if p u = true then f u else u).id = u.id := by
      split
      · exact hf u
      · rfl
    rw [hid]
    exact Nat.lt_of_lt_of_le (h.fresh u hu) hnext

theorem Keyed.register {cfg : Config} {db : Db} (h : Keyed db) (username email token : String)
    (now : Nat) : Keyed (accountRegisterPost cfg db username email token now) where
  nodup := by
    simp only [accountRegisterPost, List.map_append, List.map_cons, List.map_nil, issue_id]
    refine List.nodup_append.mpr ⟨h.nodup, by simp, ?_⟩
    rintro i hi j hj rfl
    obtain ⟨u, hu, rfl⟩ := List.mem_map.mp hi
    have := h.fresh u hu
    rw [List.mem_singleton] at hj
    omega
  fresh u hu := by
    rcases List.mem_append.mp hu with hu | hu
    · exact Nat.lt_succ_of_lt (h.fresh u hu)
    · rw [List.mem_singleton.mp hu]
      exact Nat.lt_succ_self _

theorem Keyed.request {cfg : Config} {db : Db} (h : Keyed db) (now : Nat) (r : Request) :
    Keyed (r.handle cfg db now) := by
  rcases request_cases cfg db now r with hsame | ⟨username, email, token, rfl⟩ |
    ⟨u, f, -, htouch, heq⟩ | ⟨after, rfl⟩
  · rw [hsame]
    exact h
  · exact h.register username email token now
  · rw [heq]
    exact h.update htouch.id rfl (Nat.le_refl _)
  · exact ⟨h.nodup, fun u hu => Nat.lt_of_lt_of_le (h.fresh u hu) (Nat.le_max_left _ _)⟩

/-- The counter only moves on. -/
theorem nextID_request (cfg : Config) (db : Db) (now : Nat) (r : Request) :
    db.nextID ≤ (r.handle cfg db now).nextID := by
  rcases request_cases cfg db now r with hsame | ⟨username, email, token, rfl⟩ |
    ⟨u, f, -, -, heq⟩ | ⟨after, rfl⟩
  · exact Nat.le_of_eq (congrArg Db.nextID hsame).symm
  · exact Nat.le_succ _
  · exact Nat.le_of_eq (congrArg Db.nextID heq).symm
  · exact Nat.le_max_left _ _

theorem users_deleteUsers (batch : List Nat) (db : Db) :
    (deleteUsers db batch).users = Table.delete (fun u => batch.contains u.id) db.users ∧
      (deleteUsers db batch).nextID = db.nextID := by
  induction batch generalizing db with
  | nil => simp [deleteUsers, Table.delete]
  | cons uid batch ih =>
      obtain ⟨husers, hnext⟩ := ih (db.deleteUser uid)
      refine ⟨?_, hnext⟩
      show (deleteUsers (db.deleteUser uid) batch).users = _
      rw [husers]
      simp only [Db.deleteUser, Table.delete, List.filter_filter]
      refine List.filter_congr fun u _ => ?_
      by_cases hid : u.id = uid <;> simp [hid]

theorem mem_deleteUsers {db : Db} {batch : List Nat} {u : User} :
    u ∈ (deleteUsers db batch).users ↔ u ∈ db.users ∧ u.id ∉ batch := by
  simp [(users_deleteUsers batch db).1]

theorem ownsContent_deleteUsers {batch : List Nat} {db : Db} {i : Nat}
    (h : ownsContent (deleteUsers db batch) i = true) : ownsContent db i = true := by
  induction batch generalizing db with
  | nil => exact h
  | cons uid batch ih => exact ownsContent_deleteUser (ih h)

theorem Keyed.step (cfg : Config) {s : Site} (h : Keyed s.db) (e : Event) :
    Keyed (step cfg s e).db := by
  cases e with
  | request now r => exact h.request now r
  | warn now issued tokens =>
      simp only [AccountMaint.step]
      split
      · exact h.update (f := fun u => u.issue cfg (tokens u.id) issued) (fun _ => rfl) rfl
          (Nat.le_refl _)
      · exact h
  | select =>
      simp only [AccountMaint.step]
      split <;> exact h
  | delete =>
      obtain ⟨husers, hnext⟩ := users_deleteUsers (s.uids.take batchSize) s.db
      refine ⟨?_, fun u hu => ?_⟩
      · show ((deleteUsers s.db _).users.map (·.id)).Nodup
        rw [husers]
        exact h.nodup.sublist ((Table.delete_sublist _ _).map _)
      · show u.id < (deleteUsers s.db _).nextID
        rw [hnext]
        exact h.fresh u (mem_deleteUsers.mp hu).1

/-! ### Deleting only what is abandoned -/

/-- No account had a verified address or content when it was deleted. -/
def OnlyAbandoned (s : Site) : Prop :=
  ∀ d ∈ s.deletions, d.user.emailVerified = false ∧ d.ownedContent = false

instance : DecidablePred OnlyAbandoned := fun s =>
  inferInstanceAs (Decidable (∀ d ∈ s.deletions, _))

/-- No request verifies an account that is selected for deletion, or gives it content. -/
def Undisturbed (s : Site) : Event → Prop
  | .request now (.verify token) =>
      ∀ u ∈ s.db.users.find? (·.emailVerificationToken == some token),
        u.id ∈ s.uids → isExpired u now = true
  | .request _ (.content after) =>
      ∀ u ∈ s.db.users, u.id ∈ s.uids → ownsContent after u.id = false
  | _ => True

/-- The selected accounts are still what they were selected for. -/
structure Selected (s : Site) : Prop where
  keyed : Keyed s.db
  known : ∀ i ∈ s.uids, i < s.db.nextID
  abandoned : ∀ u ∈ s.db.users, u.id ∈ s.uids →
    u.emailVerified = false ∧ ownsContent s.db u.id = false
  only : OnlyAbandoned s

theorem doomed_iff {cfg : Config} {db : Db} {now : Nat} {u : User} :
    doomed cfg db now u = true ↔ u.emailVerified = false ∧ u.accountType = .user ∧
      u.lastLogin + cfg.unverifiedAccountLifetime < timestamp now ∧
      u.lastSSHLogin + cfg.unverifiedAccountLifetime < timestamp now ∧
      ownsContent db u.id = false := by
  simp [doomed, and_assoc]

theorem mem_expired {cfg : Config} {db : Db} {now i : Nat} :
    i ∈ expired cfg db now ↔ ∃ u ∈ db.users, u.id = i ∧ doomed cfg db now u = true ∧
      (u.registrationTS + cfg.unverifiedAccountLifetime) * 1000000 < now := by
  simp only [expired, List.mem_map, List.mem_filter, Bool.and_eq_true, decide_eq_true_eq]
  constructor
  · rintro ⟨u, ⟨hu, hd, ht⟩, hid⟩
    exact ⟨u, hu, hid, hd, ht⟩
  · rintro ⟨u, hu, hid, hd, ht⟩
    exact ⟨u, ⟨hu, hd, ht⟩, hid⟩

/-- A request that is not one of the guarded two keeps an unverified account unverified. -/
theorem Touch.emailVerified {cfg : Config} {db : Db} {now : Nat} {r : Request} {u : User}
    {f : User → User} (h : Touch cfg db now r u f) (hr : ∀ token, r ≠ .verify token)
    (hu : u.emailVerified = false) : (f u).emailVerified = false := by
  have hedit : ∀ form token, (u.edited cfg form token now).emailVerified = false := by
    intro form token
    unfold User.edited
    split
    · rfl
    · exact hu
  cases h with
  | verify => exact absurd rfl (hr _)
  | edit => exact hedit _ _
  | editLogin => exact hedit _ _
  | _ => exact hu

theorem Selected.request {cfg : Config} {s : Site} (h : Selected s) {now : Nat} {r : Request}
    (hg : Undisturbed s (.request now r)) : Selected (step cfg s (.request now r)) := by
  refine ⟨h.keyed.request now r, ?_, ?_, h.only⟩
  · intro i hi
    exact Nat.lt_of_lt_of_le (h.known i hi) (nextID_request cfg s.db now r)
  · show ∀ u' ∈ (r.handle cfg s.db now).users, u'.id ∈ s.uids → u'.emailVerified = false ∧
      ownsContent (r.handle cfg s.db now) u'.id = false
    intro u' hu' hsel
    by_cases hcontent : ∃ after, r = .content after
    · obtain ⟨after, rfl⟩ := hcontent
      exact ⟨(h.abandoned u' hu' hsel).1, hg u' hu' hsel⟩
    rw [ownsContent_request (fun after hr => hcontent ⟨after, hr⟩)]
    rcases request_cases cfg s.db now r with hsame | ⟨username, email, token, rfl⟩ |
      ⟨u, f, hu, htouch, heq⟩ | hr
    · rw [hsame] at hu'
      exact h.abandoned u' hu' hsel
    · rcases List.mem_append.mp hu' with hu' | hu'
      · exact h.abandoned u' hu' hsel
      · -- a new account has an id nobody has selected
        rw [List.mem_singleton] at hu'
        have hnew := h.known u'.id hsel
        rw [hu', issue_id] at hnew
        exact absurd hnew (Nat.lt_irrefl _)
    · rw [heq] at hu'
      obtain ⟨w, hw, hrow⟩ := mem_updateUser.mp hu'
      by_cases hid : w.id = u.id
      · rw [if_pos hid] at hrow
        obtain rfl : w = u := h.keyed.eq_of_id hw hu hid
        have hid' : u'.id = w.id := by rw [← hrow, htouch.id]
        obtain ⟨hverified, hown⟩ := h.abandoned w hw (hid' ▸ hsel)
        refine ⟨?_, hid' ▸ hown⟩
        rw [← hrow]
        by_cases hverify : ∃ token, r = .verify token
        · obtain ⟨token, rfl⟩ := hverify
          cases htouch with
          | verify hfind _ hlive =>
              have := hg w hfind (hid' ▸ hsel)
              simp [hlive] at this
        · exact htouch.emailVerified (fun token hr => hverify ⟨token, hr⟩) hverified
      · rw [if_neg hid] at hrow
        exact hrow ▸ h.abandoned w hw (hrow ▸ hsel)
    · exact absurd hr hcontent

/-- **One step**: an undisturbed event keeps the selected accounts deletable. -/
theorem Selected.step {cfg : Config} {s : Site} (h : Selected s) {e : Event}
    (hg : Undisturbed s e) : Selected (step cfg s e) := by
  cases e with
  | request now r => exact h.request hg
  | warn now issued tokens =>
      have hkeyed := h.keyed.step cfg (.warn now issued tokens)
      simp only [AccountMaint.step] at hkeyed ⊢
      split at hkeyed
      · rename_i hcheck
        rw [if_pos hcheck]
        exact ⟨hkeyed, by simp, by simp, h.only⟩
      · rename_i hcheck
        rw [if_neg hcheck]
        exact h
  | select =>
      cases hsel : s.selecting with
      | none => simpa [AccountMaint.step, hsel] using h
      | some now =>
          simp only [AccountMaint.step, hsel]
          refine ⟨h.keyed, ?_, ?_, h.only⟩
          · intro i hi
            obtain ⟨u, hu, rfl, -⟩ := mem_expired.mp hi
            exact h.keyed.fresh u hu
          · intro u hu hi
            obtain ⟨w, hw, hid, hdoomed, -⟩ := mem_expired.mp hi
            obtain rfl : w = u := h.keyed.eq_of_id hw hu hid
            obtain ⟨hverified, -, -, -, hown⟩ := doomed_iff.mp hdoomed
            exact ⟨hverified, hown⟩
  | delete =>
      refine ⟨h.keyed.step cfg .delete, ?_, ?_, ?_⟩
      · intro i hi
        show i < (deleteUsers s.db _).nextID
        rw [(users_deleteUsers _ _).2]
        exact h.known i (List.mem_of_mem_drop hi)
      · intro u hu hi
        obtain ⟨hverified, hown⟩ :=
          h.abandoned u (mem_deleteUsers.mp hu).1 (List.mem_of_mem_drop hi)
        refine ⟨hverified, ?_⟩
        show ownsContent (deleteUsers s.db _) u.id = false
        by_contra hc
        have := ownsContent_deleteUsers (by simpa using hc)
        simp [this] at hown
      · intro d hd
        rcases List.mem_append.mp hd with hd | hd
        · exact h.only d hd
        · obtain ⟨u, hu, rfl⟩ := List.mem_map.mp hd
          obtain ⟨hmem, hbatch⟩ := List.mem_filter.mp hu
          exact h.abandoned u hmem (List.mem_of_mem_take (by simpa using hbatch))

/--
**A run that no request disturbs between the selection and the deletes only deletes
accounts that are unverified and without content.**
-/
theorem onlyAbandoned_of_undisturbed (cfg : Config) (s : Site) (es : List Event)
    (hkeyed : Keyed s.db) (huids : s.uids = []) (hdeletions : s.deletions = [])
    (hg : Run.Guarded (step cfg) Undisturbed s es) : Run.Along (step cfg) OnlyAbandoned s es := by
  have hs : Selected s :=
    ⟨hkeyed, by simp [huids], by simp [huids], by simp [OnlyAbandoned, hdeletions]⟩
  exact (Run.along_of_guarded (fun _ _ h hg => h.step hg) hs hg).imp fun _ h => h.only

/-- Accounts are warned after three seconds and deleted after five. -/
def shortConfig : Config where
  collate := id
  repoRegex _ := true
  setOrder := SetOrder.ascending
  maxCharsComment := 0
  requestIdleTime := 0
  autoOrphanAge := 0
  autoDeleteAge := 0
  enableMaintenance := false
  maintenanceExceptions := []
  emailVerificationTTL := 2
  emailVerificationCooldown := 1
  unverifiedAccountWarning := 3
  unverifiedAccountLifetime := 5

/-- A run at second 20 on a site whose only account registered at second 10 and has just
been sent a new link. -/
def staleSite : Site :=
  { Site.start 20000000 with
    db :=
      { users := [{ (default : User) with
          id := 1, emailVerificationToken := some "t", emailVerificationExpiry := some 21
          registrationTS := 10 }]
        nextID := 2 } }

theorem onlyAbandoned_of_undisturbed_staleSite :
    Run.Along (step shortConfig) OnlyAbandoned staleSite
      [.warn 20000000 20000000 (fun _ => "w"), .select, .request 20000000 (.login 1), .delete] :=
  onlyAbandoned_of_undisturbed shortConfig staleSite _ ⟨by decide, by decide⟩ rfl rfl
    ⟨trivial, trivial, trivial, trivial, trivial⟩

/-- The account follows its link while the script is between its two statements. -/
theorem verified_account_deleted :
    ¬Run.Along (step shortConfig) OnlyAbandoned staleSite
      [.warn 20000000 20000000 (fun _ => "w"), .select, .request 20000000 (.verify "t"),
        .delete] := by
  decide

end Aurweb.AccountMaint
