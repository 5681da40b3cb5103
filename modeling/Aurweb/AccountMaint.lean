/-
Account maintenance: `aurweb/scripts/accountmaint.py`, and the site it runs against.

A run is not one step.  `_warn` selects the accounts to remind and mails them, `_delete`
selects the ids to delete, and then deletes them batch by batch in transactions of their
own; other requests are served in between.  Each of these is an event of its own here,
so that a run of the system is any interleaving of them with requests.
-/
import Aurweb.Accounts
import Aurweb.Lib.Run

namespace Aurweb.AccountMaint

/-! ### The script -/

/-- `BATCH_SIZE`. -/
def batchSize : Nat := 500

/-- `_doomed`, on one row; `stale` is `int(now.timestamp()) - _lifetime()`, compared with
the subtraction moved to the other side. -/
def doomed (cfg : Config) (db : Db) (now : Nat) (u : User) : Bool :=
  !u.emailVerified && u.accountType == .user &&
    decide (u.lastLogin + cfg.unverifiedAccountLifetime < timestamp now) &&
    decide (u.lastSSHLogin + cfg.unverifiedAccountLifetime < timestamp now) &&
    !ownsContent db u.id

/-- The end of the warning band in `expiring`: registration, `_warn_after` and
`_warning_window`. -/
def bandEnd (cfg : Config) (u : User) : Nat :=
  (u.registrationTS + cfg.unverifiedAccountWarning + cfg.emailVerificationTTL) * 1000000

/-- Its start. -/
def bandStart (cfg : Config) (u : User) : Nat :=
  (u.registrationTS + cfg.unverifiedAccountWarning) * 1000000

/-- `User.EmailVerificationExpiry.is_(None) or … <= int(now.timestamp())`. -/
def noLiveToken (u : User) (now : Nat) : Bool :=
  match u.emailVerificationExpiry with
  | none => true
  | some expiry => expiry ≤ timestamp now

/-- `expiring`. -/
def expiring (cfg : Config) (db : Db) (now : Nat) : List User :=
  db.users.filter fun u =>
    doomed cfg db now u && !u.suspended && decide (bandStart cfg u < now) &&
      decide (now ≤ bandEnd cfg u) && noLiveToken u now

/-- `expired`. -/
def expired (cfg : Config) (db : Db) (now : Nat) : List Nat :=
  (db.users.filter fun u =>
    doomed cfg db now u &&
      decide ((u.registrationTS + cfg.unverifiedAccountLifetime) * 1000000 < now)).map (·.id)

/-- `check_config`. -/
def checkConfig (cfg : Config) : Bool :=
  decide (cfg.unverifiedAccountWarning < cfg.unverifiedAccountLifetime) &&
    decide (cfg.emailVerificationTTL < cfg.unverifiedAccountWarning)

/-- `verify.issue` for every account of `uids`. -/
def issueAll (cfg : Config) (db : Db) (uids : List Nat) (tokens : Nat → String) (now : Nat) : Db :=
  { db with
    users := Table.update (fun u => uids.contains u.id) (fun u => u.issue cfg (tokens u.id) now)
      db.users }

/-- `DELETE FROM Users WHERE ID IN batch`. -/
def deleteUsers (db : Db) (batch : List Nat) : Db := batch.foldl Db.deleteUser db

/-! ### The site -/

/-- The requests that change what the script reads. -/
inductive Request
  | register (username email token : String)
  | login (uid : Nat)
  | sshLogin (uid : Nat) (remoteAddr : String)
  | verify (token : String)
  | resend (editor uid : Nat) (token : String)
  | edit (editor uid : Nat) (form : AccountForm) (token : String)
  /-- Any request that creates or removes content: it leaves `Users` alone and the other
  tables as in `after`. -/
  | content (after : Db)

def Request.handle (cfg : Config) (db : Db) (now : Nat) : Request → Db
  | register username email token => accountRegisterPost cfg db username email token now
  | login uid => Aurweb.login db uid now
  | sshLogin uid remoteAddr => logSSHLogin db uid remoteAddr now
  | verify token => accountVerify db token now
  | resend editor uid token => accountVerifyResend cfg db editor uid token now
  | edit editor uid form token => accountEditPost cfg db editor uid form token now
  | content after => { after with users := db.users, nextID := max db.nextID after.nextID }

/-- A deleted row, and whether its account owned content when it was deleted. -/
structure Deletion where
  user : User
  ownedContent : Bool
  deriving DecidableEq, Repr

structure Site where
  db : Db
  /-- When the last event happened. -/
  clock : Nat
  /-- `now` of the latest run. -/
  lastRun : Option Nat
  /-- `now` of a run that has warned and not selected yet. -/
  selecting : Option Nat
  /-- The accounts earlier runs have reminded. -/
  earlier : List Nat
  /-- The accounts the latest run has reminded. -/
  warned : List Nat
  /-- The ids the latest run has selected and not deleted yet. -/
  uids : List Nat
  deletions : List Deletion

inductive Event
  | request (now : Nat) (r : Request)
  /-- `check_config` and `_warn` of a run at `now`; the tokens are issued at `issued`. -/
  | warn (now issued : Nat) (tokens : Nat → String)
  /-- `expired(now)`. -/
  | select
  /-- One iteration of the loop of `_delete`. -/
  | delete

def step (cfg : Config) (s : Site) : Event → Site
  | .request now r => { s with db := r.handle cfg s.db now, clock := now }
  | .warn now issued tokens =>
      if checkConfig cfg then
        let uids := (expiring cfg s.db now).map (·.id)
        { s with
          db := issueAll cfg s.db uids tokens issued
          clock := issued
          lastRun := some now
          selecting := some now
          earlier := s.earlier ++ s.warned
          warned := uids
          uids := [] }
      else s
  | .select =>
      match s.selecting with
      | none => s
      | some now => { s with selecting := none, uids := expired cfg s.db now }
  | .delete =>
      let batch := s.uids.take batchSize
      { s with
        db := deleteUsers s.db batch
        uids := s.uids.drop batchSize
        deletions := s.deletions ++ (s.db.users.filter fun u => batch.contains u.id).map
          fun u => { user := u, ownedContent := ownsContent s.db u.id } }

/-- A site nobody has registered on and the script has not run on. -/
def Site.start (clock : Nat) : Site where
  db := {}
  clock := clock
  lastRun := none
  selecting := none
  earlier := []
  warned := []
  uids := []
  deletions := []

end Aurweb.AccountMaint
