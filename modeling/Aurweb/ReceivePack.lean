/-
Pushes as the processes they are: `serve`, then `git-receive-pack` with the update hook.

`serve` checks the access and replaces itself by `git-receive-pack`.  That runs the hook,
which looks the package base up for itself, and then moves the ref if it is still where the
client has seen it.  Other sessions, requests and scripts come in between.  A `restore` is
the same without a ref to move.  The branch and the `HEAD` the hook keeps for convenience are
left out: only `restore` reads one, and it says here which commit it found.
-/
import Aurweb.Site

namespace Aurweb.ReceivePack

abbrev Commit := String

/-- What the hook finds in the repository. -/
structure Repo where
  /-- The packages of the `.SRCINFO` in a commit. -/
  srcinfo : Commit → List GitUpdate.PackageData
  /-- The checks that come before the database: fast-forward, unless it may overwrite, and
  everything about the new commits. -/
  validates : (pkgbase : String) → (allowOverwrite : Bool) → (old : Option Commit) → Commit → Bool

/-- A process `serve` has handed over to. -/
structure Receiver where
  /-- Whose key it was. -/
  uid : Nat
  session : GitServe.Session
  /-- `AUR_PKGBASE`. -/
  pkgbase : String
  restore : Bool
  /-- The update of the ref that the hook has let through. -/
  accepted : Option (Option Commit × Commit)
  deriving DecidableEq, Repr

structure Server where
  db : Db
  /-- `refs/heads/master` in the namespace of a package base. -/
  master : String → Option Commit
  receivers : List Receiver

/-! ### Access -/

/-- An operation whose session, if it is one, ends with the hand-over. -/
def handOver : Op → Op
  | .ssh uid remoteAddr now hookInstalled action args _ =>
      .ssh uid remoteAddr now hookInstalled action args { packages := none, faults := fun _ => none }
  | op => op

/-- The process a session is replaced by. -/
def receiver (cfg : Config) (db : Db) : Op → Option Receiver
  | .ssh uid remoteAddr now hookInstalled action args _ =>
      match (db.user? uid).bind fun u =>
          GitServe.Session.of u remoteAddr (timestamp now) hookInstalled with
      | none => none
      | some session =>
          match (GitServe.serve cfg db session action args).1 with
          | .ok (.receivePack pkgbase) =>
              some { uid, session, pkgbase, restore := false, accepted := none }
          | .ok (.restore pkgbase) =>
              some { uid, session, pkgbase, restore := true, accepted := none }
          | _ => none
  | _ => none

/-! ### The hook -/

/-- What the hook is run with. -/
def Receiver.push (repo : Repo) (r : Receiver) (new : Commit) (now : Nat) : GitUpdate.Push where
  pkgbase := r.pkgbase
  user := r.session.user
  privileged := r.session.privileged
  packages := repo.srcinfo new
  now := now

/-- `main`; a `restore` takes the commit of the branch for both ends. -/
def Server.hook (cfg : Config) (repo : Repo) (s : Server) (i : Nat) (old : Option Commit)
    (new : Commit) (overwrite : Bool) (now : Nat) (faults : Nat → Option GitUpdate.Failure) :
    Server :=
  match s.receivers[i]? with
  | none => s
  | some r =>
      if r.accepted.isSome then s
      else
        let old := if r.restore then some new else old
        if !repo.validates r.pkgbase (overwrite && r.session.privileged) old new then
          { s with receivers := s.receivers.eraseIdx i }
        else
          match (GitUpdate.main cfg (r.push repo new now)).run faults s.db with
          | (.error _, db) => { s with db, receivers := s.receivers.eraseIdx i }
          | (.ok (), db) =>
              if r.restore then { s with db, receivers := s.receivers.eraseIdx i }
              else
                { s with
                  db, receivers := s.receivers.set i { r with accepted := some (old, new) } }

/-! ### The ref -/

/-- The ref is moved if it is still where it was for the client. -/
def Server.update (s : Server) (i : Nat) : Server :=
  match s.receivers[i]? with
  | none => s
  | some r =>
      match r.accepted with
      | none => s
      | some (old, new) =>
          { s with
            master :=
              if s.master r.pkgbase = old then Function.update s.master r.pkgbase (some new)
              else s.master
            receivers := s.receivers.eraseIdx i }

/-! ### The system -/

inductive Event
  | op (op : Op)
  | hook (i : Nat) (old : Option Commit) (new : Commit) (overwrite : Bool) (now : Nat)
      (faults : Nat → Option GitUpdate.Failure)
  | update (i : Nat)
  /-- A process that ends before it is through. -/
  | abandon (i : Nat)

def step (cfg : Config) (repo : Repo) (s : Server) : Event → Server
  | .op op =>
      { s with
        db := Aurweb.step cfg s.db (handOver op)
        receivers := s.receivers ++ (receiver cfg s.db op).toList }
  | .hook i old new overwrite now faults => s.hook cfg repo i old new overwrite now faults
  | .update i => s.update i
  | .abandon i => { s with receivers := s.receivers.eraseIdx i }

/-- No push is under way. -/
def Server.start (db : Db) (master : String → Option Commit) : Server where
  db := db
  master := master
  receivers := []

end Aurweb.ReceivePack
