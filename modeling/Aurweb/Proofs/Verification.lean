/-
What a step of the verification flow can do.

Of an account only what the flow turns on matters: its addresses, whether it is verified,
and its token.  A step is a sequence of moves on these columns, each with what it puts into
the history.
-/
import Aurweb.Verification
import Aurweb.Proofs.AccountMaint
import Mathlib.Logic.Relation

namespace Aurweb.Verification

variable {cfg : Config} {s : Office} {now : Nat}

/-! ### Reading the history -/

@[simp] theorem issuedTokens_append (log log' : List Entry) :
    issuedTokens (log ++ log') = issuedTokens log ++ issuedTokens log' := by
  induction log with
  | nil => rfl
  | cons e log ih => cases e <;> simp [issuedTokens, ih]

theorem mem_issuedTokens {token : String} {log : List Entry} :
    token ∈ issuedTokens log ↔ ∃ uid ts, .issued uid token ts ∈ log := by
  induction log with
  | nil => simp [issuedTokens]
  | cons e log ih => cases e <;> simp [issuedTokens, ih, exists_or]

/-- Tokens being distinct, each was issued once. -/
theorem issued_unique {log : List Entry} (h : (issuedTokens log).Nodup) {token : String}
    {uid uid' ts ts' : Nat} (hissued : .issued uid token ts ∈ log)
    (hissued' : .issued uid' token ts' ∈ log) : uid = uid' ∧ ts = ts' := by
  obtain ⟨newer, older, rfl⟩ := List.append_of_mem hissued
  rw [issuedTokens_append] at h
  obtain ⟨-, holder, hdisj⟩ := List.nodup_append.mp h
  simp only [issuedTokens, List.nodup_cons] at holder
  rcases List.mem_append.mp hissued' with hnew | hold
  · exact absurd rfl (hdisj token (mem_issuedTokens.mpr ⟨_, _, hnew⟩) token
      (List.mem_cons_self ..))
  · rcases List.mem_cons.mp hold with heq | hold
    · simp only [Entry.issued.injEq] at heq
      exact ⟨heq.1.symm, heq.2.2.symm⟩
    · exact absurd (mem_issuedTokens.mpr ⟨_, _, hold⟩) holder.1

/-- The entry is about the address or the token of the account. -/
def Entry.Concerns (uid : Nat) : Entry → Prop
  | addressed uid' _ => uid' = uid
  | issued uid' _ _ => uid' = uid
  | _ => False

theorem liveIssue_cons {uid : Nat} {e : Entry} (h : ¬e.Concerns uid) (log : List Entry) :
    liveIssue uid (e :: log) = liveIssue uid log := by
  cases e <;> simp_all [liveIssue, Entry.Concerns]

theorem addressOf_cons {uid : Nat} {e : Entry} (h : ¬e.Concerns uid) (log : List Entry) :
    addressOf uid (e :: log) = addressOf uid log := by
  cases e <;> simp_all [addressOf, Entry.Concerns]

/-- Nothing in the entry is about the account. -/
def Entry.Foreign (uid : Nat) (e : Entry) : Prop :=
  ¬e.Concerns uid ∧ ∀ backup, e ≠ .backedUp uid backup

theorem backupOf_cons {uid : Nat} {e : Entry} (h : ∀ backup, e ≠ .backedUp uid backup)
    (log : List Entry) : backupOf uid (e :: log) = backupOf uid log := by
  cases e <;> simp_all [backupOf]

theorem addressOf_append {uid : Nat} {newer : List Entry} (h : ∀ e ∈ newer, ¬e.Concerns uid)
    (older : List Entry) : addressOf uid (newer ++ older) = addressOf uid older := by
  induction newer with
  | nil => rfl
  | cons e newer ih =>
      obtain ⟨he, hrest⟩ := List.forall_mem_cons.mp h
      rw [List.cons_append, addressOf_cons he, ih hrest]

/-- The one entry that concerns the account and leaves a token live is its issue. -/
theorem issued_of_liveIssue {uid ts : Nat} {token : String} {e : Entry} {log : List Entry}
    (hc : e.Concerns uid) (h : liveIssue uid (e :: log) = some (token, ts)) :
    e = .issued uid token ts := by
  cases e <;> simp_all [liveIssue, Entry.Concerns]

/-- A token that is live and was not issued lately was live before. -/
theorem liveIssue_append {uid ts : Nat} {token : String} {newer older : List Entry}
    (hlive : liveIssue uid (newer ++ older) = some (token, ts))
    (hold : token ∉ issuedTokens newer) :
    liveIssue uid older = some (token, ts) ∧ ∀ e ∈ newer, ¬e.Concerns uid := by
  induction newer with
  | nil => exact ⟨hlive, by simp⟩
  | cons e newer ih =>
      have hrest : token ∉ issuedTokens newer := by
        intro hmem
        exact hold (by cases e <;> simp [issuedTokens, hmem])
      have hnone : ¬e.Concerns uid := by
        intro hc
        rw [issued_of_liveIssue hc hlive] at hold
        exact hold (List.mem_cons_self ..)
      rw [List.cons_append, liveIssue_cons hnone] at hlive
      obtain ⟨hlive, huntouched⟩ := ih hlive hrest
      exact ⟨hlive, List.forall_mem_cons.mpr ⟨hnone, huntouched⟩⟩

/-- What is live was issued, and nothing has touched the account since. -/
theorem exists_of_liveIssue {uid ts : Nat} {token : String} {log : List Entry}
    (h : liveIssue uid log = some (token, ts)) :
    ∃ newer older, log = newer ++ .issued uid token ts :: older ∧
      ∀ e ∈ newer, ¬e.Concerns uid := by
  induction log with
  | nil => simp [liveIssue] at h
  | cons e log ih =>
      by_cases hc : e.Concerns uid
      · rw [issued_of_liveIssue hc h]
        exact ⟨[], log, rfl, by simp⟩
      · rw [liveIssue_cons hc] at h
        obtain ⟨newer, older, rfl, huntouched⟩ := ih h
        exact ⟨e :: newer, older, rfl, List.forall_mem_cons.mpr ⟨hc, huntouched⟩⟩

/-! ### What a step can do -/

/-- The columns of an account the flow turns on. -/
structure Credentials where
  id : Nat
  email : String
  backup : Option String
  verified : Bool
  token : Option String
  expiry : Option Nat

def credentials (u : User) : Credentials where
  id := u.id
  email := u.email
  backup := u.backupEmail
  verified := u.emailVerified
  token := u.emailVerificationToken
  expiry := u.emailVerificationExpiry

def accounts (db : Db) : List Credentials := db.users.map credentials

/-- `verify.issue`, on these columns. -/
def Credentials.issue (cfg : Config) (token : String) (now : Nat) (c : Credentials) :
    Credentials :=
  { c with token := some token, expiry := some (timestamp now + cfg.emailVerificationTTL) }

/-- One transaction of a step, or one mail. -/
inductive Move (cfg : Config) (now : Nat) : Office → Office → Prop
  | other {s : Office} {db : Db} (hnext : s.db.nextID ≤ db.nextID)
      (haccounts : accounts db = accounts s.db) : Move cfg now s (s.commit db [])
  | register {s : Office} {db : Db} {email token : String} {backup : Option String}
      (hnext : db.nextID = s.db.nextID + 1)
      (haccounts : accounts db = accounts s.db ++
        [Credentials.issue cfg token now
          { id := s.db.nextID, email, backup, verified := false, token := none, expiry := none }]) :
      Move cfg now s (s.commit db [.backedUp s.db.nextID backup,
        .issued s.db.nextID token (timestamp now), .addressed s.db.nextID email])
  | readdress {s : Office} {db : Db} {c : Credentials} {email token : String}
      {backup : Option String} (hc : c ∈ accounts s.db) (hnext : db.nextID = s.db.nextID)
      (haccounts : accounts db = Table.update (·.id == c.id) (fun c =>
        Credentials.issue cfg token now { c with email, backup, verified := false })
        (accounts s.db)) :
      Move cfg now s (s.commit db
        [.backedUp c.id backup, .issued c.id token (timestamp now), .addressed c.id email])
  | backUp {s : Office} {db : Db} {c : Credentials} {backup : Option String}
      (hc : c ∈ accounts s.db) (hnext : db.nextID = s.db.nextID)
      (haccounts : accounts db =
        Table.update (·.id == c.id) (fun c => { c with backup }) (accounts s.db)) :
      Move cfg now s (s.commit db [.backedUp c.id backup])
  | issue {s : Office} {db : Db} {uids : List Nat} {tokens : Nat → String}
      (hverified : ∀ c ∈ accounts s.db, c.id ∈ uids → c.verified = false)
      (hnext : db.nextID = s.db.nextID)
      (haccounts : accounts db = Table.update (fun c => uids.contains c.id)
        (fun c => c.issue cfg (tokens c.id) now) (accounts s.db)) :
      Move cfg now s (s.commit db (uids.map fun uid => .issued uid (tokens uid) (timestamp now)))
  | use {s : Office} {db : Db} {c : Credentials} {token : String} (hc : c ∈ accounts s.db)
      (htoken : c.token = some token) (hnext : db.nextID = s.db.nextID)
      (haccounts : accounts db = Table.update (·.id == c.id)
        (fun c => { c with verified := true, token := none, expiry := none }) (accounts s.db)) :
      Move cfg now s (s.commit db [.used token])
  | delete {s : Office} {db : Db} {uids : List Nat} (hnext : db.nextID = s.db.nextID)
      (haccounts : accounts db = Table.delete (fun c => uids.contains c.id) (accounts s.db)) :
      Move cfg now s (s.commit db [])
  | notify {s : Office} (uid : Nat) : Move cfg now s (s.notify uid now)

/-! ### The moves of a step -/

theorem accounts_updateUser {db : Db} {uid : Nat} {f : User → User}
    {g : Credentials → Credentials}
    (h : ∀ u ∈ db.users, u.id = uid → credentials (f u) = g (credentials u)) :
    accounts (updateUser db uid f) = Table.update (·.id == uid) g (accounts db) :=
  Table.map_update_comm (fun _ => rfl) fun u hu hid => h u hu (by simpa using hid)

theorem accounts_updateUser_eq {db : Db} {uid : Nat} {f : User → User}
    (h : ∀ u, credentials (f u) = credentials u) :
    accounts (updateUser db uid f) = accounts db :=
  Table.map_update h db.users

theorem accounts_login (db : Db) (uid now : Nat) :
    accounts (Aurweb.login db uid now) = accounts db ∧
      (Aurweb.login db uid now).nextID = db.nextID := by
  rcases AccountMaint.login_cases db uid now with hsame | hlogged
  · simp [hsame]
  · rw [hlogged]
    exact ⟨accounts_updateUser_eq fun _ => rfl, rfl⟩

theorem accounts_logSSHLogin (db : Db) (uid : Nat) (remoteAddr : String) (now : Nat) :
    accounts (logSSHLogin db uid remoteAddr now) = accounts db ∧
      (logSSHLogin db uid remoteAddr now).nextID = db.nextID := by
  unfold logSSHLogin
  split
  · exact ⟨rfl, rfl⟩
  · split
    · exact ⟨rfl, rfl⟩
    · exact ⟨accounts_updateUser_eq fun _ => rfl, rfl⟩

theorem accounts_deleteUsers (db : Db) (uids : List Nat) :
    accounts (AccountMaint.deleteUsers db uids) =
      Table.delete (fun c => uids.contains c.id) (accounts db) := by
  rw [accounts, (AccountMaint.users_deleteUsers _ _).1]
  exact Table.map_delete credentials (fun c => uids.contains c.id) db.users

/-- An account is one row. -/
abbrev Keyed (db : Db) : Prop := Table.Numbered (·.id) db.nextID db.users

theorem keyed_iff {db : Db} : Keyed db ↔ Table.Numbered (·.id) db.nextID (accounts db) := by
  have hids : (accounts db).map (·.id) = db.users.map (·.id) := by
    simp [accounts, credentials, Function.comp_def]
  constructor
  · intro h
    refine ⟨by rw [hids]; exact h.nodup, fun c hc => ?_⟩
    obtain ⟨u, hu, rfl⟩ := List.mem_map.mp hc
    exact h.lt u hu
  · intro h
    refine ⟨by rw [← hids]; exact h.nodup, fun u hu => ?_⟩
    exact h.lt (credentials u) (List.mem_map_of_mem hu)

theorem keyed_update {db db' : Db} (hk : Keyed db) (hnext : db'.nextID = db.nextID)
    {p : Credentials → Bool} {f : Credentials → Credentials}
    (haccounts : accounts db' = Table.update p f (accounts db)) (hf : ∀ c, (f c).id = c.id) :
    Keyed db' := by
  rw [keyed_iff, haccounts, hnext]
  exact (keyed_iff.mp hk).of_map_eq (Table.map_update hf _)

/-- Nobody has a token yet, and accounts are told apart by their id. -/
structure Unissued (db : Db) : Prop where
  keyed : Keyed db
  tokens : ∀ u ∈ db.users, u.emailVerificationToken = none ∧ u.emailVerificationExpiry = none

theorem accounts_register (hk : Keyed s.db) (username email : String) (backup : Option String)
    (token : String) :
    accounts (updateUser (accountRegisterPost cfg s.db username email token now) s.db.nextID
        fun u => { u with backupEmail := backup }) =
      accounts s.db ++ [Credentials.issue cfg token now
        { id := s.db.nextID, email, backup, verified := false, token := none, expiry := none }] := by
  simp only [accounts, updateUser, accountRegisterPost, Table.update, List.map_append,
    List.map_cons, List.map_nil, issue_id, beq_self_eq_true, if_true, List.map_map]
  congr 1
  refine List.map_congr_left fun u hu => ?_
  have hid : u.id ≠ s.db.nextID := Nat.ne_of_lt (hk.lt u hu)
  simp [hid]

theorem keyed_register (hk : Keyed s.db) (username email : String) (backup : Option String)
    (token : String) :
    Keyed (updateUser (accountRegisterPost cfg s.db username email token now) s.db.nextID
      fun u => { u with backupEmail := backup }) := by
  rw [keyed_iff, accounts_register hk]
  exact (keyed_iff.mp hk).insert rfl

theorem register_moves (hk : Keyed s.db) (username email : String) (backup : Option String)
    (token : String) :
    Relation.ReflTransGen (Move cfg now) s (register cfg s username email backup token now) :=
  .tail (.single (.register rfl (accounts_register hk username email backup token))) (.notify _)

theorem editing_eq_some {editorID uid : Nat} {form : AccountForm} {user : User}
    (h : editing cfg s.db editorID uid form now = some user) :
    (user ∈ s.db.users ∧ user.id = uid) ∧
      (form.emailChanged user = true → inCooldown cfg user now = false) ∧ ∀ token,
      accountEditPost cfg s.db editorID uid form token now =
        updateUser s.db uid (User.edited cfg form token now) ∨
      accountEditPost cfg s.db editorID uid form token now =
        Aurweb.login (updateUser s.db uid (User.edited cfg form token now)) uid now := by
  unfold editing at h
  split at h
  · rename_i editor u heditor hu
    split at h
    · rename_i hmay
      obtain rfl : u = user := Option.some.inj h
      refine ⟨Db.user?_mem hu, fun hchanged => ?_, fun token => ?_⟩
      · simp only [mayEdit, hchanged, Bool.true_and, Bool.and_eq_true, Bool.not_eq_true'] at hmay
        exact hmay.1.2
      simp only [accountEditPost, heditor, hu, hmay, Bool.not_true, Bool.false_eq_true, if_false]
      split
      · exact Or.inr rfl
      · exact Or.inl rfl
    · cases h
  · cases h

theorem accounts_edit (hk : Keyed s.db) {editorID uid : Nat} {form : AccountForm} {user : User}
    (h : editing cfg s.db editorID uid form now = some user) (token : String)
    (backup : Option String) :
    let db := updateUser (accountEditPost cfg s.db editorID uid form token now) uid
      fun u => { u with backupEmail := backup }
    db.nextID = s.db.nextID ∧
      accounts db = Table.update (·.id == uid) (fun c =>
        if form.emailChanged user then
          Credentials.issue cfg token now { c with email := form.email, backup, verified := false }
        else { c with backup }) (accounts s.db) := by
  obtain ⟨⟨hmem, hid⟩, -, hpost⟩ := editing_eq_some h
  have hedited : accounts (updateUser s.db uid (User.edited cfg form token now)) =
      Table.update (·.id == uid) (fun c => if form.emailChanged user then
        Credentials.issue cfg token now { c with email := form.email, verified := false }
        else c) (accounts s.db) := by
    refine accounts_updateUser fun u hu huid => ?_
    obtain rfl : u = user := hk.eq_of_key hu hmem (huid.trans hid.symm)
    by_cases hchanged : form.emailChanged u = true <;>
      simp [User.edited, hchanged, credentials, Credentials.issue, User.issue]
  have hsame : accounts (accountEditPost cfg s.db editorID uid form token now) =
        accounts (updateUser s.db uid (User.edited cfg form token now)) ∧
      (accountEditPost cfg s.db editorID uid form token now).nextID = s.db.nextID := by
    rcases hpost token with heq | heq
    · rw [heq]
      exact ⟨rfl, rfl⟩
    · rw [heq]
      exact accounts_login _ _ _
  refine ⟨hsame.2, ?_⟩
  rw [accounts_updateUser (g := fun c => { c with backup }) fun _ _ _ => rfl, hsame.1, hedited,
    Table.update_update]
  · congr 1
    funext c
    split <;> rfl
  · intro c
    split <;> rfl

theorem edit_moves (hk : Keyed s.db) (editorID uid : Nat) (form : AccountForm)
    (backup : Option String) (token : String) :
    Relation.ReflTransGen (Move cfg now) s (edit cfg s editorID uid form backup token now) := by
  unfold edit
  split
  · exact .refl
  · rename_i user hedit
    obtain ⟨⟨hmem, rfl⟩, -⟩ := editing_eq_some hedit
    obtain ⟨hnext, haccounts⟩ := accounts_edit hk hedit token (backup.or user.backupEmail)
    have hc : credentials user ∈ accounts s.db := List.mem_map_of_mem hmem
    split
    · rename_i hchanged
      simp only [hchanged, if_true] at haccounts
      exact .tail (.single (.readdress hc hnext haccounts)) (.notify _)
    · rename_i hchanged
      simp only [hchanged, Bool.false_eq_true, if_false] at haccounts
      exact .single (.backUp hc hnext haccounts)

theorem resending_eq_some {editorID uid : Nat} {user : User}
    (h : resending cfg s.db editorID uid now = some user) :
    (user ∈ s.db.users ∧ user.id = uid) ∧ user.emailVerified = false ∧
      inCooldown cfg user now = false ∧ ∀ token,
        accountVerifyResend cfg s.db editorID uid token now =
          updateUser s.db uid (User.issue cfg token now) := by
  unfold resending at h
  split at h
  · rename_i editor u heditor hu
    split at h
    · cases h
    · rename_i hmay
      obtain rfl : u = user := Option.some.inj h
      have hparts := hmay
      simp only [Bool.or_eq_true, not_or, Bool.not_eq_true] at hparts
      refine ⟨Db.user?_mem hu, hparts.1.2, hparts.2, fun token => ?_⟩
      simp only [accountVerifyResend, heditor, hu, hmay, Bool.false_eq_true, if_false]
  · cases h

theorem resend_moves (hk : Keyed s.db) (editorID uid : Nat) (token : String) :
    Relation.ReflTransGen (Move cfg now) s (resend cfg s editorID uid token now) := by
  unfold resend
  split
  · exact .refl
  · rename_i user hresend
    obtain ⟨⟨hmem, rfl⟩, hverified, -, hpost⟩ := resending_eq_some hresend
    have hissue : Move cfg now s (s.commit (accountVerifyResend cfg s.db editorID user.id token now)
        ([user.id].map fun uid => .issued uid token (timestamp now))) := by
      refine Move.issue ?_ ?_ ?_
      · intro c hc hid
        obtain ⟨u, hu, rfl⟩ := List.mem_map.mp hc
        obtain rfl : u = user := hk.eq_of_key hu hmem (List.mem_singleton.mp hid)
        exact hverified
      · rw [hpost]
        rfl
      · rw [hpost, accounts_updateUser (g := Credentials.issue cfg token now) fun _ _ _ => rfl]
        congr 1
        funext c
        by_cases hid : c.id = user.id <;> simp [hid]
    exact .tail (.single hissue) (.notify _)

theorem verifying_eq_some {token : String} {user : User}
    (h : verifying s.db token now = some user) :
    user ∈ s.db.users ∧ user.emailVerificationToken = some token ∧ user.emailVerified = false ∧
      isExpired user now = false ∧
      accountVerify s.db token now = updateUser s.db user.id fun u =>
        { u with
          emailVerified := true
          emailVerificationToken := none
          emailVerificationExpiry := none } := by
  unfold verifying at h
  split at h
  · cases h
  · rename_i u hfind
    split at h
    · cases h
    · rename_i hlive
      obtain rfl : u = user := Option.some.inj h
      have hparts := hlive
      simp only [Bool.or_eq_true, not_or, Bool.not_eq_true] at hparts
      refine ⟨List.mem_of_find?_eq_some hfind, by simpa using List.find?_some hfind, hparts.1,
        hparts.2, ?_⟩
      simp only [accountVerify, hfind, hlive, Bool.false_eq_true, if_false]

theorem visit_moves (s : Office) (token : String) :
    Relation.ReflTransGen (Move cfg now) s (visit s token now) := by
  unfold visit
  split
  · exact .refl
  · rename_i user hverify
    obtain ⟨hmem, htoken, -, -, hpost⟩ := verifying_eq_some hverify
    have hc : credentials user ∈ accounts s.db := List.mem_map_of_mem hmem
    refine .single (.use hc htoken ?_ ?_)
    · rw [hpost]
      rfl
    · rw [hpost]
      exact accounts_updateUser fun _ _ _ => rfl

theorem mem_of_verificationNotification {db : Db} {uid : Nat} {m : Mail}
    (h : verificationNotification db uid = some m) :
    ∃ u ∈ db.users, u.id = uid ∧ u.emailVerificationToken = some m.token ∧
      m = { uid, primary := u.email, backup := u.backupEmail, token := m.token } := by
  unfold verificationNotification at h
  split at h
  · cases h
  · rename_i u hfind
    obtain ⟨token, htoken, rfl⟩ := Option.map_eq_some_iff.mp h
    have hid : u.id = uid := by
      have hfound := List.find?_some hfind
      simp only [Bool.and_eq_true, beq_iff_eq] at hfound
      exact hfound.1
    exact ⟨u, List.mem_of_find?_eq_some hfind, hid, htoken, by rw [hid]⟩

theorem notifyAll_moves (s : Office) (uids : List Nat) :
    Relation.ReflTransGen (Move cfg now) s (uids.foldl (fun s uid => s.notify uid now) s) := by
  induction uids generalizing s with
  | nil => exact .refl
  | cons uid uids ih => exact .head (.notify uid) (ih _)

theorem accountmaint_moves (hk : Keyed s.db) (tokens : Nat → String) :
    Relation.ReflTransGen (Move cfg now) s (accountmaint cfg s now tokens) := by
  unfold accountmaint
  split
  · have hissue : Move cfg now s (s.commit (AccountMaint.issueAll cfg s.db
        ((AccountMaint.expiring cfg s.db now).map (·.id)) tokens now)
        (((AccountMaint.expiring cfg s.db now).map (·.id)).map
          fun uid => .issued uid (tokens uid) (timestamp now))) := by
      refine .issue ?_ rfl ?_
      · intro c hc hid
        obtain ⟨u, hu, rfl⟩ := List.mem_map.mp hc
        obtain ⟨w, hw, hwid⟩ := List.mem_map.mp hid
        obtain ⟨hwmem, hdoomed⟩ := List.mem_filter.mp hw
        obtain rfl : w = u := hk.eq_of_key hwmem hu hwid
        simp only [Bool.and_eq_true, AccountMaint.doomed_iff] at hdoomed
        exact hdoomed.1.1.1.1.1
      · exact Table.map_update_comm (fun _ => rfl) fun _ _ _ => rfl
    exact .tail (.trans (.single hissue) (notifyAll_moves _ _))
      (.delete (AccountMaint.users_deleteUsers _ _).2 (accounts_deleteUsers _ _))
  · exact .refl

theorem handle_moves (hk : Keyed s.db) (e : Event) :
    Relation.ReflTransGen (Move cfg e.now) s (e.handle cfg s) := by
  cases e with
  | accountmaint now tokens => exact accountmaint_moves hk tokens
  | request now r =>
      cases r with
      | register username email backup token => exact register_moves hk username email backup token
      | edit editorID uid form backup token => exact edit_moves hk editorID uid form backup token
      | resend editorID uid token => exact resend_moves hk editorID uid token
      | visit token => exact visit_moves s token
      | login uid =>
          obtain ⟨haccounts, hnext⟩ := accounts_login s.db uid now
          exact .single (.other (Nat.le_of_eq hnext.symm) haccounts)
      | sshLogin uid remoteAddr =>
          obtain ⟨haccounts, hnext⟩ := accounts_logSSHLogin s.db uid remoteAddr now
          exact .single (.other (Nat.le_of_eq hnext.symm) haccounts)
      | content after => exact .single (.other (Nat.le_max_left _ _) rfl)

end Aurweb.Verification
