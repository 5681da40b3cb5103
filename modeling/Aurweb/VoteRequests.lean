/-
Votes that overlap.

A vote or unvote over either interface is two steps: it asks whether the row is there, and
commits what it makes of the answer.  Between the two other requests may commit.  A commit
over SSH adds to the counter or takes from it; one on the web counts again.
-/
import Aurweb.GitServe

namespace Aurweb.VoteRequests

inductive Action
  | vote
  | unvote
  deriving DecidableEq, Repr

inductive Interface
  | web
  | ssh
  deriving DecidableEq, Repr

/-- A request for a package base: a form of the account `uid`, or a session of `user`. -/
inductive Request
  | web (action : Action) (uid : Nat) (name : String)
  | ssh (action : Action) (user pkgbase : String)
  deriving DecidableEq, Repr

/-- What a request has found out by the time it commits. -/
structure Ballot where
  interface : Interface
  action : Action
  uid : Nat
  baseID : Nat
  deriving DecidableEq, Repr

/-- `not vote`, or `vote`: the answer that lets the request go on. -/
def Action.allowed (db : Db) (baseID uid : Nat) : Action → Bool
  | vote => !hasPackageVote db baseID uid
  | unvote => hasPackageVote db baseID uid

/-- The routes and commands `pkgbase_vote` and `pkgbase_unvote`, up to their transaction. -/
def check (cfg : Config) (db : Db) : Request → Option Ballot
  | .web action uid name =>
      match db.user? uid, baseNamed cfg db name with
      | some user, some base =>
          if hasCredential user .pkgbaseVote [] && action.allowed db base.id user.id then
            some { interface := .web, action, uid := user.id, baseID := base.id }
          else none
      | _, _ => none
  | .ssh action user pkgbase =>
      match baseNamed cfg db pkgbase, userNamed cfg db user with
      | some base, some u =>
          if action.allowed db base.id u.id then
            some { interface := .ssh, action, uid := u.id, baseID := base.id }
          else none
      | _, _ => none

/-- The transaction.  On the web a second row of the same user violates the unique index, a
row that has gone is only warned about, and `popupdate.run_single` counts the rows. -/
def commit (db : Db) (now : Nat) (b : Ballot) : Db :=
  match b.interface, b.action with
  | .ssh, .vote => (GitServe.commitVote db b.baseID b.uid now).2
  | .ssh, .unvote => (GitServe.commitUnvote db b.baseID b.uid).2
  | .web, .vote =>
      if hasPackageVote db b.baseID b.uid then db
      else
        let vote := { usersID := b.uid, packageBaseID := b.baseID, voteTS := now }
        popupdate { db with packageVotes := db.packageVotes ++ [vote] } b.baseID
  | .web, .unvote =>
      let votes := Table.delete (fun v => v.packageBaseID == b.baseID && v.usersID == b.uid)
        db.packageVotes
      popupdate { db with packageVotes := votes } b.baseID

/-! ### Requests as a system -/

/-- The database and the requests that have been checked but not committed. -/
structure Polls where
  db : Db
  inFlight : List Ballot
  deriving DecidableEq, Repr

inductive Event
  | check (r : Request)
  | commit (i now : Nat)
  deriving DecidableEq, Repr

def step (cfg : Config) (s : Polls) : Event → Polls
  | .check r =>
      match check cfg s.db r with
      | none => s
      | some b => { s with inFlight := s.inFlight ++ [b] }
  | .commit i now =>
      match s.inFlight[i]? with
      | none => s
      | some b => { db := commit s.db now b, inFlight := s.inFlight.eraseIdx i }

/-- One request from end to end, with nothing in between. -/
def handle (cfg : Config) (db : Db) (now : Nat) : Request → Db
  | .web action uid name =>
      match db.user? uid with
      | none => db
      | some user =>
          match action with
          | .vote => (pkgbaseVote cfg db user name now).2
          | .unvote => (pkgbaseUnvote cfg db user name).2
  | .ssh .vote user pkgbase => (GitServe.pkgbaseVote cfg db pkgbase user now).2
  | .ssh .unvote user pkgbase => (GitServe.pkgbaseUnvote cfg db pkgbase user).2

end Aurweb.VoteRequests
