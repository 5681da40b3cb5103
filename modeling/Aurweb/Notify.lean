/-
The notifications of `aurweb/scripts/notify.py`: whom each class writes to, and how `_send` hands
its messages over.

A class is told by what it overrides.  Its texts are a parameter, already wrapped, and so is the
date.  A constructor that raises an exception, since a row it looks up is not there, is `none`.
-/
import Aurweb.Lib.Query
import Aurweb.Users

namespace Aurweb.Notify

open Users (Account)

/-- `[notifications]`. -/
structure Settings where
  sender : String
  replyTo : String
  sendmail : String
  smtpServer : String
  smtpPort : Nat
  smtpUseSsl : Bool
  smtpUseStarttls : Bool
  smtpUser : String
  smtpPassword : String
  smtpTimeout : Nat
  deriving DecidableEq, Repr

/-! ### Messages -/

/-- What `get_headers` returns: nothing, `headers_msgid` or `headers_reply`. -/
inductive Thread
  | none
  | msgid (threadID : String)
  | reply (threadID : String)
  deriving DecidableEq, Repr

def Thread.headers : Thread → List (String × String)
  | none => []
  | msgid threadID => [("Message-ID", threadID)]
  | reply threadID => [("In-Reply-To", threadID), ("References", threadID)]

/-- `get_subject` and `get_body_fmt`, by the language. -/
structure Text where
  subject : String → String
  bodyFmt : String → String

structure Notification where
  /-- The name of the class, without `Notification`. -/
  reason : String
  recipients : List (String × String)
  cc : List String := []
  bcc : List String := []
  headers : Thread := .none
  text : Text

structure Message where
  headers : List (String × String)
  body : String
  deriving DecidableEq, Repr

/-- The headers of a `MIMEText`. -/
def mimeText : List (String × String) :=
  [("Content-Type", "text/plain; charset=\"utf-8\""), ("MIME-Version", "1.0"),
    ("Content-Transfer-Encoding", "base64")]

/-- `", ".join`. -/
def join (addresses : List String) : String := ", ".intercalate addresses

def Notification.message (cfg : Settings) (date : String) (n : Notification) (to_ lang : String) :
    Message where
  headers :=
    mimeText ++
      [("Subject", n.text.subject lang), ("From", cfg.sender), ("Reply-to", cfg.replyTo),
        ("To", to_)] ++
      (if n.cc.isEmpty then [] else [("Cc", join n.cc)]) ++
      [("X-AUR-Reason", n.reason), ("Date", date)] ++ n.headers.headers
  body := n.text.bodyFmt lang

/-- What `smtplib` is made to do. -/
inductive SmtpCommand
  | connect (ssl : Bool) (server : String) (port timeout : Nat)
  | ehlo
  | starttls
  | login (user passwd : String)
  | sendmail (sender : String) (deliverTo : List String) (msg : Message)
  | quit
  deriving DecidableEq, Repr

/-- A message on its way out. -/
inductive Delivery
  | program (argv : List String) (input : Message)
  | smtp (session : List SmtpCommand)
  deriving DecidableEq, Repr

def smtpSession (cfg : Settings) (deliverTo : List String) (msg : Message) : List SmtpCommand :=
  [.connect cfg.smtpUseSsl cfg.smtpServer cfg.smtpPort cfg.smtpTimeout] ++
    (if cfg.smtpUseStarttls then [.ehlo, .starttls, .ehlo] else []) ++
    (if cfg.smtpUser ≠ "" ∧ cfg.smtpPassword ≠ "" then
      [.login cfg.smtpUser cfg.smtpPassword] else []) ++
    [.sendmail cfg.sender deliverTo msg, .quit]

/-- `_send`, one message after another. -/
def Notification.send (cfg : Settings) (date : String) (n : Notification) : List Delivery :=
  n.recipients.map fun (to_, lang) =>
    let msg := n.message cfg date to_ lang
    if cfg.sendmail ≠ "" then .program [cfg.sendmail, "-t", "-oi"] msg
    else .smtp (smtpSession cfg ([to_] ++ n.cc ++ n.bcc) msg)

/-! ### The classes -/

/-- What a notification is constructed with. -/
inductive Action
  | sendResetkey (uid : Nat)
  | welcome (uid : Nat)
  | verification (uid : Nat)
  | verificationReminder (uid : Nat)
  | comment (uid pkgbaseID commentID : Nat)
  | update (uid pkgbaseID : Nat)
  | flag (uid pkgbaseID : Nat)
  | adopt (uid pkgbaseID : Nat)
  | disown (uid pkgbaseID : Nat)
  | comaintainerAdd (uid pkgbaseID : Nat)
  | comaintainerRemove (uid pkgbaseID : Nat)
  | delete (uid oldPkgbaseID : Nat) (newPkgbaseID : Option Nat)
  | requestOpen (uid reqID : Nat) (reqType : String) (pkgbaseID : Nat) (mergeInto : Option String)
  | requestClose (uid reqID : Nat) (reason : String)
  | voteReminder (voteID : Nat)
  deriving DecidableEq, Repr

section Recipients

variable (cfg : Config) (accounts : List Account) (db : Db)

/-- `User.ID == uid`, `User.Suspended == 0`. -/
def unsuspended (uid : Nat) : Option Account :=
  accounts.find? fun u => u.id == uid && !u.suspended

/-- `.with_entities(User.Email, User.LangPreference).distinct()`. -/
def addressed (rows : List Account) : List (String × String) :=
  (Query.groupBy (fun u : Account => (cfg.collate u.email, cfg.collate u.langPreference)) rows).map
    fun u => (u.email, u.langPreference)

/-- Those who want to hear of a package base, other than `uid` and the suspended. -/
def subscribers (wants : Account → Bool) (uid pkgbaseID : Nat) : List (String × String) :=
  addressed cfg <| accounts.flatMap fun u =>
    (db.packageNotifications.filter fun n =>
      n.userID == u.id && wants u && n.userID != uid && n.packageBaseID == pkgbaseID &&
        !u.suspended).map fun _ => u

/-- The maintainer and the co-maintainers, by their addresses. -/
def maintainers (pkgbaseID : Nat) : List (String × String) :=
  let query := Query.outer
    (fun r : Account × Option PackageComaintainer =>
      db.packageComaintainers.filter fun c => c.usersID == r.1.id)
    (fun r c => (r.1, c)) (accounts.map fun u => (u, none))
  let rows := query.flatMap fun (u, c) =>
    (db.packageBases.filter fun b =>
      (b.maintainerUID == some u.id || c.any (·.packageBaseID == b.id)) && b.id == pkgbaseID &&
        !u.suspended).map fun _ => u
  (addressed cfg rows).mergeSort fun a b => decide (cfg.collate a.1 ≤ cfg.collate b.1)

/-- The address of an account, and its backup address. -/
def ownAddresses (user : Account) : List (String × String) :=
  match user.backupEmail with
  | none => [(user.email, user.langPreference)]
  | some backup =>
      if backup = "" then [(user.email, user.langPreference)]
      else [(user.email, user.langPreference), (backup, user.langPreference)]

/-- The accounts that a request concerns, by their addresses and whether these are hidden. -/
def concerned (reqID : Nat) : List Account :=
  let requests := db.packageRequests.flatMap fun r =>
    (db.packageBases.filter fun b => r.packageBaseID == some b.id).map fun b => (r, b)
  let query := Query.outer
    (fun row : (PackageRequest × PackageBase) × Option PackageComaintainer =>
      db.packageComaintainers.filter fun c => row.1.1.packageBaseID == some c.packageBaseID)
    (fun row c => (row.1, c)) (requests.map fun row => (row, none))
  let rows := query.flatMap fun ((r, b), c) =>
    accounts.filter fun u =>
      (some u.id == r.usersID || some u.id == b.maintainerUID || c.any (·.usersID == u.id)) &&
        r.id == reqID && !u.suspended
  Query.groupBy (fun u : Account => (cfg.collate u.email, u.hideEmail)) rows

/-- `_cc`. -/
def requestCc (reqID : Nat) : List String :=
  ((concerned cfg accounts db reqID).filter fun u => !u.hideEmail).map (·.email)

/-- `_bcc`. -/
def requestBcc (reqID : Nat) : List String :=
  ((concerned cfg accounts db reqID).filter fun u => u.hideEmail).map (·.email)

/-- The Package Maintainers who have not voted. -/
def nonVoters (voteID : Nat) : List (String × String) :=
  (accounts.filter fun u =>
    (u.accountType == .packageMaintainer || u.accountType == .packageMaintainerAndDev) &&
      !(db.votes.any fun v => v.voteID == voteID && v.userID == u.id) && !u.suspended).map
    fun u => (u.email, u.langPreference)

/-- `db.query(User.Username).filter(User.ID == uid).first().Username`. -/
def username? (uid : Nat) : Option String := (accounts.find? (·.id == uid)).map (·.username)

/-- `db.query(PackageBase.Name).filter(PackageBase.ID == pkgbase_id).first().Name`. -/
def pkgbaseName? (pkgbaseID : Nat) : Option String := (db.packageBase? pkgbaseID).map (·.name)

end Recipients

/-- The thread of a package base. -/
def pkgThread (pkgbase : String) : String :=
  s!"<pkg-notifications-{pkgbase}@aur.archlinux.org>"

/-- The thread of a request. -/
def requestThread (reqID : Nat) : String := s!"<pkg-request-{reqID}@aur.archlinux.org>"

/-- The classes, as they are constructed. -/
def Action.notification (cfg : Config) (accounts : List Account) (db : Db) (requestML : String)
    (text : Action → Text) (action : Action) : Option Notification :=
  match action with
  | sendResetkey uid =>
      (unsuspended accounts uid).map fun user =>
        { reason := "ResetKey", recipients := ownAddresses user, text := text action }
  | welcome uid =>
      (unsuspended accounts uid).map fun user =>
        { reason := "Welcome", recipients := ownAddresses user, text := text action }
  | verification uid =>
      (unsuspended accounts uid).map fun user =>
        { reason := "Verification", recipients := ownAddresses user, text := text action }
  | verificationReminder uid =>
      (unsuspended accounts uid).map fun user =>
        { reason := "VerificationReminder", recipients := ownAddresses user, text := text action }
  | comment uid pkgbaseID _ => do
      let _ ← username? accounts uid
      let pkgbase ← pkgbaseName? db pkgbaseID
      some {
        reason := "Comment"
        recipients := subscribers cfg accounts db (·.commentNotify) uid pkgbaseID
        headers := .reply (pkgThread pkgbase)
        text := text action }
  | update uid pkgbaseID => do
      let _ ← username? accounts uid
      let pkgbase ← pkgbaseName? db pkgbaseID
      some {
        reason := "Update"
        recipients := subscribers cfg accounts db (·.updateNotify) uid pkgbaseID
        headers := .reply (pkgThread pkgbase)
        text := text action }
  | flag uid pkgbaseID => do
      let _ ← username? accounts uid
      let _ ← pkgbaseName? db pkgbaseID
      some {
        reason := "Flag", recipients := maintainers cfg accounts db pkgbaseID, text := text action }
  | adopt uid pkgbaseID => do
      let _ ← username? accounts uid
      let _ ← pkgbaseName? db pkgbaseID
      some {
        reason := "Adopt"
        recipients := subscribers cfg accounts db (·.ownershipNotify) uid pkgbaseID
        text := text action }
  | disown uid pkgbaseID => do
      let _ ← username? accounts uid
      let _ ← pkgbaseName? db pkgbaseID
      some {
        reason := "Disown"
        recipients := subscribers cfg accounts db (·.ownershipNotify) uid pkgbaseID
        text := text action }
  | comaintainerAdd uid pkgbaseID => do
      let _ ← pkgbaseName? db pkgbaseID
      let user ← accounts.find? (·.id == uid)
      some {
        reason := "ComaintainerAdd", recipients := [(user.email, user.langPreference)]
        text := text action }
  | comaintainerRemove uid pkgbaseID => do
      let _ ← pkgbaseName? db pkgbaseID
      let user ← accounts.find? (·.id == uid)
      some {
        reason := "ComaintainerRemove", recipients := [(user.email, user.langPreference)]
        text := text action }
  | delete uid oldPkgbaseID newPkgbaseID => do
      let _ ← username? accounts uid
      let _ ← pkgbaseName? db oldPkgbaseID
      let _ ← newPkgbaseID.elim (some "") (pkgbaseName? db)
      some {
        reason := "Delete"
        recipients := subscribers cfg accounts db (fun _ => true) uid oldPkgbaseID
        text := text action }
  | requestOpen uid reqID _ pkgbaseID _ => do
      let _ ← username? accounts uid
      let _ ← pkgbaseName? db pkgbaseID
      let _ ← db.packageRequests.find? (·.id == reqID)
      some {
        reason := "RequestOpen", recipients := [(requestML, "en")]
        cc := requestCc cfg accounts db reqID, bcc := requestBcc cfg accounts db reqID
        headers := .msgid (requestThread reqID), text := text action }
  | requestClose _ reqID _ => do
      let _ ← db.packageRequests.find? (·.id == reqID)
      some {
        reason := "RequestClose", recipients := [(requestML, "en")]
        cc := requestCc cfg accounts db reqID, bcc := requestBcc cfg accounts db reqID
        headers := .reply (requestThread reqID), text := text action }
  | voteReminder voteID =>
      some {
        reason := "VoteReminder", recipients := nonVoters accounts db voteID, text := text action }

end Aurweb.Notify
