/-
The site: everything that is done to the database, one complete operation after the other.

An operation is a form posted by a logged-in user, an SSH session with the program it
hands over to, or a run of one of the maintenance scripts.  A push carries what git does
not decide here: what the hook made of the `.SRCINFO`, and which ticks of the hook fail.
-/
import Aurweb.AccountMaint
import Aurweb.GitServe
import Aurweb.GitUpdate
import Aurweb.Proposals
import Aurweb.Terms

namespace Aurweb

/-! ### Forms -/

/-- `username_in_use`; a visitor who registers has no row. -/
def usernameInUse (cfg : Config) (db : Db) (uid : Option Nat) (username : String) : Bool :=
  db.users.any fun u => some u.id != uid && cfg.sameName u.username username

/-- `account_edit_post`, with the username it sets. -/
def accountEdit (cfg : Config) (db : Db) (editorID uid : Nat) (username : String)
    (form : AccountForm) (token : String) (now : Nat) : Db :=
  match db.user? editorID, db.user? uid with
  | some editor, some user =>
      if username = "" || usernameInUse cfg db (some uid) username ||
          !mayEdit cfg editor user form now then db
      else
        updateUser (accountEditPost cfg db editorID uid form token now) uid fun u =>
          { u with username := username }
  | _, _ => db

/-- A form, as it is posted. -/
inductive Form
  | requestClose (id : Nat) (comments : String)
  | keywords (name : String) (words : List String)
  | flag (name comments : String)
  | unflag (name : String)
  | vote (name : String)
  | unvote (name : String)
  | notify (name : String)
  | unnotify (name : String)
  | comment (name comment : String) (enableNotifications : Bool)
  | commentEdit (name : String) (id : Nat) (comment : String) (enableNotifications cancel : Bool)
      (next : String)
  | commentDelete (name : String) (id : Nat) (next : String)
  | commentUndelete (name : String) (id : Nat) (next : String)
  | disown (name comments : String) (confirm : Bool) (next : String)
  | adopt (name next : String) (via : Nat)
  | comaintainers (name : String) (users : List String)
  | request (name type : String) (mergeInto : Option String) (comments : String)
  | delete (name : String) (confirm : Bool) (comments next : String)
  | merge (name into comments : String) (confirm : Bool) (next : String)
  | packages (ids : List Nat) (action : String) (confirm : Bool)
  | accountDelete (name : String) (confirm validPassword : Bool)
  | accountEdit (uid : Nat) (username : String) (form : AccountForm) (token : String)
  | resend (uid : Nat) (token : String)
  | proposal (id : Nat) (decision : String)
  | terms (accept : Bool)

/-- What is stored once the form has been answered.  Routes read the clock in seconds, the
account pages in microseconds. -/
def Form.post (cfg : Config) (db : Db) (user : User) (now : Nat) : Form → Db
  | .requestClose id comments => (requestClosePost db user id comments (timestamp now)).2
  | .keywords name words => (pkgbaseKeywords cfg db user name words).2
  | .flag name comments => (pkgbaseFlagPost cfg db user name comments (timestamp now)).2
  | .unflag name => (pkgbaseInstance cfg db name (pkgbaseUnflagInstance db user)).2
  | .vote name => (pkgbaseVote cfg db user name (timestamp now)).2
  | .unvote name => (pkgbaseUnvote cfg db user name).2
  | .notify name => (pkgbaseInstance cfg db name (pkgbaseNotifyInstance db user)).2
  | .unnotify name => (pkgbaseInstance cfg db name (pkgbaseUnnotifyInstance db user)).2
  | .comment name text enableNotifications =>
      (pkgbaseCommentsPost cfg db user name text enableNotifications).2
  | .commentEdit name id text enableNotifications cancel next =>
      (pkgbaseCommentPost cfg db user name id text enableNotifications cancel next).2
  | .commentDelete name id next => (pkgbaseCommentDelete cfg db user name id next).2
  | .commentUndelete name id next => (pkgbaseCommentUndelete cfg db user name id next).2
  | .disown name comments confirm next =>
      (pkgbaseDisownPost cfg db user name comments confirm next (timestamp now)).2
  | .adopt name next via => (pkgbaseAdoptPost cfg db user name next via (timestamp now)).2
  | .comaintainers name users => (pkgbaseComaintainersPost cfg db user name users).2
  | .request name type mergeInto comments =>
      (pkgbaseRequestPost cfg db user name type mergeInto comments (timestamp now)).2
  | .delete name confirm comments next =>
      (pkgbaseDeletePost cfg db user name confirm comments next (timestamp now)).2
  | .merge name into comments confirm next =>
      (pkgbaseMergePost cfg db user name into comments confirm next (timestamp now)).2
  | .packages ids action confirm =>
      (packagesPost cfg db user ids action confirm (timestamp now)).2
  | .accountDelete name confirm validPassword =>
      (accountDeletePost cfg db user name confirm validPassword).2
  | .accountEdit uid username form token =>
      Aurweb.accountEdit cfg db user.id uid username form token now
  | .resend uid token => accountVerifyResend cfg db user.id uid token now
  | .proposal id decision =>
      (Proposals.packageMaintainerProposalPost db user id decision (timestamp now)).2
  | .terms accept => (Terms.termsOfServicePost db user.id accept).2

/-! ### SSH sessions -/

/-- What a push or a restore brings: the packages of its `.SRCINFO`, unless it is turned
away before the database is looked at, and the ticks of the hook that fail. -/
structure Upload where
  packages : Option (List GitUpdate.PackageData)
  faults : Nat → Option GitUpdate.Failure

/-- `git/update.py`, or its predecessor, for the session that has been handed over. -/
def runHook (cfg : Config) (db : Db) (s : GitServe.Session) (pkgbase : String)
    (upload : Upload) : Db :=
  match upload.packages with
  | none => db
  | some packages =>
      ((GitUpdate.main cfg
        { pkgbase, user := s.user, privileged := s.privileged, packages, now := s.now }).run
          upload.faults db).2

/-- A session: `serve`, and what it hands over to. -/
def session (cfg : Config) (db : Db) (s : GitServe.Session) (action : String)
    (args : List String) (upload : Upload) : Db :=
  match GitServe.serve cfg db s action args with
  | (.ok (.receivePack pkgbase), db) => runHook cfg db s pkgbase upload
  | (.ok (.restore pkgbase), db) => runHook cfg db s pkgbase upload
  | (_, db) => db

/-! ### Operations -/

inductive Op
  | post (uid now : Nat) (form : Form)
  | register (username email token : String) (now : Nat)
  | login (uid now : Nat)
  | verify (token : String) (now : Nat)
  | ssh (uid : Nat) (remoteAddr : String) (now : Nat) (hookInstalled : Bool) (action : String)
      (args : List String) (upload : Upload)
  | requestmaint (now : Nat)
  | accountmaint (now : Nat) (tokens : Nat → String)
  /-- `popupdate.py`: the counters of all package bases, or of those it finds due. -/
  | popupdate (due : List Nat)

/-- A run of `accountmaint.py`, from end to end. -/
def accountmaint (cfg : Config) (db : Db) (now : Nat) (tokens : Nat → String) : Db :=
  if AccountMaint.checkConfig cfg then
    let warned := AccountMaint.issueAll cfg db
      ((AccountMaint.expiring cfg db now).map (·.id)) tokens now
    AccountMaint.deleteUsers warned (AccountMaint.expired cfg warned now)
  else db

def step (cfg : Config) (db : Db) : Op → Db
  | .post uid now form =>
      match db.user? uid with
      | none => db
      | some user => form.post cfg db user now
  | .register username email token now =>
      if usernameInUse cfg db none username then db
      else accountRegisterPost cfg db username email token now
  | .login uid now => Aurweb.login db uid now
  | .verify token now => accountVerify db token now
  | .ssh uid remoteAddr now hookInstalled action args upload =>
      match (db.user? uid).bind fun u =>
          GitServe.Session.of u remoteAddr (timestamp now) hookInstalled with
      | none => db
      | some s => session cfg db s action args upload
  | .requestmaint now => Aurweb.requestmaint cfg db (timestamp now)
  | .accountmaint now tokens => Aurweb.accountmaint cfg db now tokens
  | .popupdate due => due.foldl Aurweb.popupdate db

end Aurweb
