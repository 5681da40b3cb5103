/-
Accounts: registration, login and the verification flow.

`aurweb/users/verify.py`, `aurweb/users/content.py` and the requests of
`aurweb/routers/accounts.py`, `aurweb/models/user.py` and `aurweb/git/serve.py` that
write the columns account maintenance reads.  A request names an account by its id, and
is one that has passed the checks of its form that read nothing modelled here (captcha,
password, address and name syntax).  Times are in microseconds since the epoch, the
columns in whole seconds.
-/
import Aurweb.Auth

namespace Aurweb

/-- `int(now.timestamp())`, which is also what `time.utcnow()` returns. -/
def timestamp (now : Nat) : Nat := now / 1000000

/-! ### Content -/

/-- `CONTENT_COLUMNS`, each column as the values it holds. -/
def contentColumns : List (Db → List (Option Nat)) :=
  [fun db => db.packageComments.map (·.usersID),
    fun db => db.packageComments.map (·.editedUsersID),
    fun db => db.packageComments.map (·.delUsersID),
    fun db => db.packageBases.map (·.maintainerUID),
    fun db => db.packageBases.map (·.submitterUID),
    fun db => db.packageBases.map (·.packagerUID),
    fun db => db.packageBases.map (·.flaggerUID),
    fun db => db.packageVotes.map (some ·.usersID),
    fun db => db.packageComaintainers.map (some ·.usersID),
    fun db => db.packageRequests.map (·.usersID),
    fun db => db.packageRequests.map (·.closedUID),
    fun db => db.packageNotifications.map (some ·.userID),
    fun db => db.voteInfo.map (some ·.submitterID),
    fun db => db.votes.map (some ·.userID)]

/-- `owns_content`. -/
def ownsContent (db : Db) (uid : Nat) : Bool :=
  contentColumns.any fun column => (column db).contains (some uid)

/-! ### Verification -/

/-- `verify.issue`; `token` is what `generate_resetkey()` returned. -/
def User.issue (cfg : Config) (token : String) (now : Nat) (user : User) : User :=
  { user with
    emailVerificationToken := some token
    emailVerificationExpiry := some (timestamp now + cfg.emailVerificationTTL) }

/-- `verify.in_cooldown`. -/
def inCooldown (cfg : Config) (user : User) (now : Nat) : Bool :=
  match user.emailVerificationExpiry with
  | none => false
  | some expiry =>
      timestamp now + cfg.emailVerificationTTL < expiry + cfg.emailVerificationCooldown

/-- `verify.is_expired`. -/
def isExpired (user : User) (now : Nat) : Bool :=
  match user.emailVerificationExpiry with
  | none => true
  | some expiry => expiry ≤ timestamp now

/-! ### Requests -/

def updateUser (db : Db) (uid : Nat) (f : User → User) : Db :=
  { db with users := Table.update (·.id == uid) f db.users }

/-- `account_register_post`: the new account has no password yet and a live token. -/
def accountRegisterPost (cfg : Config) (db : Db) (username email token : String) (now : Nat) :
    Db :=
  let user : User :=
    { id := db.nextID, accountType := .user, suspended := false, emailVerified := false
      emailVerificationToken := none, emailVerificationExpiry := none
      username, email, lastLogin := 0, lastSSHLogin := 0, lastSSHLoginIPAddress := none
      inactivityTS := 0, registrationTS := timestamp now }
  { db with users := db.users ++ [user.issue cfg token now], nextID := db.nextID + 1 }

/-- `User.login` with a valid password, and the same write of `sso.py`. -/
def login (db : Db) (uid now : Nat) : Db :=
  match db.user? uid with
  | none => db
  | some user =>
      if user.suspended then db
      else updateUser db uid fun u => { u with lastLogin := timestamp now, inactivityTS := 0 }

/-- `log_ssh_login`; `git-auth` hands out no session to a suspended account. -/
def logSSHLogin (db : Db) (uid : Nat) (remoteAddr : String) (now : Nat) : Db :=
  match db.user? uid with
  | none => db
  | some user =>
      if user.suspended then db
      else updateUser db uid fun u =>
        { u with lastSSHLogin := timestamp now, lastSSHLoginIPAddress := some remoteAddr }

/-- `account_verify`. -/
def accountVerify (db : Db) (token : String) (now : Nat) : Db :=
  match db.users.find? (·.emailVerificationToken == some token) with
  | none => db
  | some user =>
      if user.emailVerified || isExpired user now then db
      else updateUser db user.id fun u =>
        { u with
          emailVerified := true
          emailVerificationToken := none
          emailVerificationExpiry := none }

/-- `User.can_edit_user`. -/
def canEditUser (editor target : User) : Bool :=
  hasCredential editor .accountEdit [some target.id] &&
    decide (target.accountType.id ≤ editor.accountType.id)

/-- `account_verify_resend`. -/
def accountVerifyResend (cfg : Config) (db : Db) (editorID uid : Nat) (token : String)
    (now : Nat) : Db :=
  match db.user? editorID, db.user? uid with
  | some editor, some user =>
      if !canEditUser editor user || user.emailVerified || inCooldown cfg user now then db
      else updateUser db uid (User.issue cfg token now)
  | _, _ => db

/-- The fields of the account form that reach a modelled column. -/
structure AccountForm where
  /-- `E`. -/
  email : String
  /-- `S`. -/
  suspended : Bool
  /-- `T`. -/
  accountType : Option AccountType
  /-- `P` is given and is not the current password. -/
  newPassword : Bool
  deriving DecidableEq, Repr

/-- `bool(E) and E != user.Email`. -/
def AccountForm.emailChanged (form : AccountForm) (user : User) : Bool :=
  form.email != "" && form.email != user.email

/-- `cannot_edit` and the checks of `process_account_form` on the modelled fields. -/
def mayEdit (cfg : Config) (editor user : User) (form : AccountForm) (now : Nat) : Bool :=
  canEditUser editor user &&
    -- invalid_suspend_permission
    (editor.isElevated || form.suspended == user.suspended) &&
    -- email_in_cooldown
    !(form.emailChanged user && inCooldown cfg user now) &&
    -- invalid_account_type
    match form.accountType with
    | none => true
    | some t => t == user.accountType ||
        hasCredential editor .accountChangeType [] && decide (t.id ≤ editor.accountType.id)

/-- `update.simple` and `update.account_type` on the row. -/
def User.edited (cfg : Config) (form : AccountForm) (token : String) (now : Nat) (user : User) :
    User :=
  let user := if form.emailChanged user then
      { (user.issue cfg token now) with email := form.email, emailVerified := false }
    else user
  { user with
    suspended := form.suspended
    accountType := form.accountType.getD user.accountType }

/-- `account_edit_post`; whoever sets a new password for themselves is logged in. -/
def accountEditPost (cfg : Config) (db : Db) (editorID uid : Nat) (form : AccountForm)
    (token : String) (now : Nat) : Db :=
  match db.user? editorID, db.user? uid with
  | some editor, some user =>
      if !mayEdit cfg editor user form now then db
      else
        let db := updateUser db uid (User.edited cfg form token now)
        if form.newPassword && editorID == uid then login db uid now else db
  | _, _ => db

end Aurweb
