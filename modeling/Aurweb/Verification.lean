/-
Email verification: who is sent which link, and what following it does.

`VerificationNotification` of `aurweb/scripts/notify.py`, with the requests and the
maintenance script that send one.  Building a mail reads the row again, after the commit; a
mail counts as sent once it has been handed over.  The log is not kept by the code: it is the
history the promises of the flow are about, latest entry first.
-/
import Aurweb.AccountMaint

namespace Aurweb.Verification

/-! ### Mails -/

/-- `VerificationNotification`; a reminder is one with another text. -/
structure Mail where
  uid : Nat
  /-- `_to`. -/
  primary : String
  /-- `_backup`. -/
  backup : Option String
  /-- `_token`, the last part of the link. -/
  token : String
  deriving DecidableEq, Repr

/-- `VerificationNotification(uid)`.  A suspended account is not found, and a link cannot be
put together without a token; either way an exception takes the place of the mail. -/
def verificationNotification (db : Db) (uid : Nat) : Option Mail :=
  match db.users.find? fun u => u.id == uid && !u.suspended with
  | none => none
  | some u =>
      u.emailVerificationToken.map fun token =>
        { uid := u.id, primary := u.email, backup := u.backupEmail, token }

/-- `get_recipients`. -/
def Mail.recipients (m : Mail) : List String :=
  match m.backup with
  | none => [m.primary]
  | some backup => if backup = "" then [m.primary] else [m.primary, backup]

/-! ### The history of the accounts -/

/-- What happens to an account; `ts` is what `time.utcnow()` returned. -/
inductive Entry
  | addressed (uid : Nat) (email : String)
  | backedUp (uid : Nat) (backup : Option String)
  | issued (uid : Nat) (token : String) (ts : Nat)
  | mailed (m : Mail) (ts : Nat)
  | used (token : String)
  deriving DecidableEq, Repr

structure Office where
  db : Db
  log : List Entry
  /-- When the last event happened. -/
  clock : Nat

/-- A transaction: what it leaves in the database, and what of it goes into the history. -/
def Office.commit (s : Office) (db : Db) (entries : List Entry) : Office :=
  { s with db, log := entries ++ s.log }

/-- `VerificationNotification(uid).send()`. -/
def Office.notify (s : Office) (uid now : Nat) : Office :=
  match verificationNotification s.db uid with
  | none => s
  | some m => { s with log := .mailed m (timestamp now) :: s.log }

/-! ### Requests -/

/-- `account_register_post`. -/
def register (cfg : Config) (s : Office) (username email : String) (backup : Option String)
    (token : String) (now : Nat) : Office :=
  let uid := s.db.nextID
  let db := accountRegisterPost cfg s.db username email token now
  let db := updateUser db uid fun u => { u with backupEmail := backup }
  (s.commit db
    [.backedUp uid backup, .issued uid token (timestamp now), .addressed uid email]).notify uid now

/-- The account an edit goes through for. -/
def editing (cfg : Config) (db : Db) (editorID uid : Nat) (form : AccountForm) (now : Nat) :
    Option User :=
  match db.user? editorID, db.user? uid with
  | some editor, some user => if mayEdit cfg editor user form now then some user else none
  | _, _ => none

/-- `account_edit_post`; `user.BackupEmail if BE is None else BE`. -/
def edit (cfg : Config) (s : Office) (editorID uid : Nat) (form : AccountForm)
    (backup : Option String) (token : String) (now : Nat) : Office :=
  match editing cfg s.db editorID uid form now with
  | none => s
  | some user =>
      let backup := backup.or user.backupEmail
      let db := accountEditPost cfg s.db editorID uid form token now
      let db := updateUser db uid fun u => { u with backupEmail := backup }
      if form.emailChanged user then
        (s.commit db [.backedUp uid backup, .issued uid token (timestamp now),
          .addressed uid form.email]).notify uid now
      else s.commit db [.backedUp uid backup]

/-- The account a link is sent again for. -/
def resending (cfg : Config) (db : Db) (editorID uid now : Nat) : Option User :=
  match db.user? editorID, db.user? uid with
  | some editor, some user =>
      if !canEditUser editor user || user.emailVerified || inCooldown cfg user now then none
      else some user
  | _, _ => none

/-- `account_verify_resend`. -/
def resend (cfg : Config) (s : Office) (editorID uid : Nat) (token : String) (now : Nat) :
    Office :=
  match resending cfg s.db editorID uid now with
  | none => s
  | some _ =>
      let db := accountVerifyResend cfg s.db editorID uid token now
      (s.commit db [.issued uid token (timestamp now)]).notify uid now

/-- The account a link verifies. -/
def verifying (db : Db) (token : String) (now : Nat) : Option User :=
  match db.users.find? (·.emailVerificationToken == some token) with
  | none => none
  | some user => if user.emailVerified || isExpired user now then none else some user

/-- `account_verify`, for whatever token the path ends in. -/
def visit (s : Office) (token : String) (now : Nat) : Office :=
  match verifying s.db token now with
  | none => s
  | some _ => s.commit (accountVerify s.db token now) [.used token]

/-- A run of `accountmaint.py`, from end to end. -/
def accountmaint (cfg : Config) (s : Office) (now : Nat) (tokens : Nat → String) : Office :=
  if AccountMaint.checkConfig cfg then
    let uids := (AccountMaint.expiring cfg s.db now).map (·.id)
    let warned := s.commit (AccountMaint.issueAll cfg s.db uids tokens now)
      (uids.map fun uid => .issued uid (tokens uid) (timestamp now))
    let mailed := uids.foldl (fun s uid => s.notify uid now) warned
    mailed.commit
      (AccountMaint.deleteUsers mailed.db (AccountMaint.expired cfg mailed.db now)) []
  else s

/-! ### The system -/

inductive Request
  | register (username email : String) (backup : Option String) (token : String)
  | edit (editorID uid : Nat) (form : AccountForm) (backup : Option String) (token : String)
  | resend (editorID uid : Nat) (token : String)
  | visit (token : String)
  | login (uid : Nat)
  | sshLogin (uid : Nat) (remoteAddr : String)
  /-- Any request that leaves `Users` alone, and the other tables as in `after`. -/
  | content (after : Db)

def Request.handle (cfg : Config) (s : Office) (now : Nat) : Request → Office
  | register username email backup token =>
      Verification.register cfg s username email backup token now
  | edit editorID uid form backup token =>
      Verification.edit cfg s editorID uid form backup token now
  | resend editorID uid token => Verification.resend cfg s editorID uid token now
  | visit token => Verification.visit s token now
  | login uid => s.commit (Aurweb.login s.db uid now) []
  | sshLogin uid remoteAddr => s.commit (logSSHLogin s.db uid remoteAddr now) []
  | content after =>
      s.commit { after with users := s.db.users, nextID := max s.db.nextID after.nextID } []

inductive Event
  | request (now : Nat) (r : Request)
  | accountmaint (now : Nat) (tokens : Nat → String)

def Event.now : Event → Nat
  | request now _ => now
  | accountmaint now _ => now

def Event.handle (cfg : Config) (s : Office) : Event → Office
  | request now r => r.handle cfg s now
  | accountmaint now tokens => Verification.accountmaint cfg s now tokens

def step (cfg : Config) (s : Office) (e : Event) : Office :=
  { e.handle cfg s with clock := timestamp e.now }

/-- The flow is switched on: the log knows what addresses the accounts have by now. -/
def Office.start (db : Db) (clock : Nat) : Office where
  db := db
  log := db.users.flatMap fun u => [.backedUp u.id u.backupEmail, .addressed u.id u.email]
  clock := clock

/-! ### Reading the history -/

def issuedTokens : List Entry → List String
  | [] => []
  | .issued _ token _ :: log => token :: issuedTokens log
  | _ :: log => issuedTokens log

/-- The address an account has. -/
def addressOf (uid : Nat) : List Entry → Option String
  | [] => none
  | .addressed uid' email :: log => if uid' = uid then some email else addressOf uid log
  | _ :: log => addressOf uid log

/-- The backup address an account has. -/
def backupOf (uid : Nat) : List Entry → Option String
  | [] => none
  | .backedUp uid' backup :: log => if uid' = uid then backup else backupOf uid log
  | _ :: log => backupOf uid log

/-- The token that was issued last, if the address has not changed since, and when. -/
def liveIssue (uid : Nat) : List Entry → Option (String × Nat)
  | [] => none
  | .issued uid' token ts :: log => if uid' = uid then some (token, ts) else liveIssue uid log
  | .addressed uid' _ :: log => if uid' = uid then none else liveIssue uid log
  | _ :: log => liveIssue uid log

end Aurweb.Verification
