/-
Voting on proposals: the vote page of `aurweb/routers/package_maintainer.py`.

The POST handler reads and checks first and writes afterwards, in one transaction.
The two halves are separate definitions here, `proposalCheck` and `proposalCommit`,
because two requests may be between them at once; `packageMaintainerProposalPost` is
one after the other.
-/
import Aurweb.Auth
import Aurweb.Lib.Run

namespace Aurweb.Proposals

/-- The three tally columns of `VoteInfo`, named as the form names them. -/
inductive Decision
  | yes
  | no
  | abstain
  deriving DecidableEq, Repr

/-- `decision in {"Yes", "No", "Abstain"}`. -/
def Decision.ofString : String → Option Decision
  | "Yes" => some .yes
  | "No" => some .no
  | "Abstain" => some .abstain
  | _ => none

/-- `getattr(voteinfo, decision)`. -/
def tally (v : VoteInfo) : Decision → Nat
  | .yes => v.yes
  | .no => v.no
  | .abstain => v.abstain

/-- `setattr(voteinfo, decision, n)`. -/
def setTally (v : VoteInfo) (n : Nat) : Decision → VoteInfo
  | .yes => { v with yes := n }
  | .no => { v with no := n }
  | .abstain => { v with abstain := n }

/-- `VoteInfo.is_running`. -/
def isRunning (v : VoteInfo) (now : Nat) : Bool := now < v.endTS

/-- `VoteInfo.total_votes`. -/
def totalVotes (v : VoteInfo) : Nat := v.yes + v.no + v.abstain

def voteInfo? (db : Db) (proposal : Nat) : Option VoteInfo :=
  db.voteInfo.find? (·.id == proposal)

/-- `vote is not None`. -/
def hasVoted (db : Db) (uid proposal : Nat) : Bool :=
  db.votes.any fun v => v.userID == uid && v.voteID == proposal

/-- `render_proposal`: a closed vote replaces whatever error the handler set. -/
def renderProposal (v : VoteInfo) (now status : Nat) (error : Option String) : Response :=
  if isRunning v now then .render status error.toList
  else .render status ["Voting is closed for this proposal."]

/-- `package_maintainer_proposal`, the GET handler. -/
def packageMaintainerProposal (db : Db) (user : User) (proposal now : Nat) : Response :=
  if !hasCredential user .pmListVotes [] then .redirect "/package-maintainer"
  else match voteInfo? db proposal with
    | none => .httpException 404 ""
    | some v =>
        renderProposal v now 200
          (if v.user = user.username then some "You cannot vote in an proposal about you."
          else if hasVoted db user.id proposal then some "You've already voted for this proposal."
          else if !hasCredential user .pmVote [] then
            some "Only Package Maintainers are allowed to vote."
          else none)

/-- What a request has read by the time it opens its transaction. -/
structure Ballot where
  userID : Nat
  proposal : Nat
  decision : Decision
  /-- The value of the chosen column that was read, and that the write adds one to. -/
  read : Nat
  deriving DecidableEq, Repr

/-- `package_maintainer_proposal_post` up to its transaction. -/
def proposalCheck (db : Db) (user : User) (proposal : Nat) (decision : String) (now : Nat) :
    Except Response Ballot :=
  if !hasCredential user .pmListVotes [] then .error (.redirect "/package-maintainer")
  else match voteInfo? db proposal with
    | none => .error (.httpException 404 "")
    | some v =>
        if !hasCredential user .pmVote [] then
          .error (renderProposal v now 401 (some "Only Package Maintainers are allowed to vote."))
        else if v.user = user.username then
          .error (renderProposal v now 400 (some "You cannot vote in an proposal about you."))
        else if hasVoted db user.id proposal then
          .error (renderProposal v now 400 (some "You've already voted for this proposal."))
        else match Decision.ofString decision with
          | none => .error (.render 400 ["Invalid 'decision' value."])
          | some d => .ok { userID := user.id, proposal, decision := d, read := tally v d }

/--
The transaction: `voteinfo.<decision> = <value read> + 1` and a new `Vote` row.  A
proposal or a user that is gone by then makes the flush fail, which rolls back.
-/
def proposalCommit (db : Db) (b : Ballot) : Db :=
  if (voteInfo? db b.proposal).isSome && (db.user? b.userID).isSome then
    { db with
      voteInfo := Table.update (·.id == b.proposal)
        (fun v => setTally v (b.read + 1) b.decision) db.voteInfo
      votes := db.votes ++ [{ voteID := b.proposal, userID := b.userID }] }
  else db

/-- `package_maintainer_proposal_post`. -/
def packageMaintainerProposalPost (db : Db) (user : User) (proposal : Nat) (decision : String)
    (now : Nat) : Response × Db :=
  match proposalCheck db user proposal decision now with
  | .error r => (r, db)
  | .ok b =>
      let db' := proposalCommit db b
      (match voteInfo? db' proposal with
        | none => .serverError "StaleDataError"
        | some v => renderProposal v now 200 (some "You've already voted for this proposal."), db')

/-! ### The vote page as a system -/

/-- A request to the vote page. -/
structure VoteRequest where
  userID : Nat
  proposal : Nat
  decision : String
  now : Nat
  deriving DecidableEq, Repr

/-- One request, start to end; a visitor without an account is sent to the login page. -/
def post (db : Db) (r : VoteRequest) : Db :=
  match db.user? r.userID with
  | none => db
  | some user => (packageMaintainerProposalPost db user r.proposal r.decision r.now).2

/-- The database and the requests that have been checked but not committed. -/
structure Polls where
  db : Db
  inFlight : List Ballot
  deriving DecidableEq, Repr

/-- The two halves of a request as separate events. -/
inductive Event
  | check (r : VoteRequest)
  | commit (i : Nat)
  deriving DecidableEq, Repr

def step (s : Polls) : Event → Polls
  | .check r =>
      match s.db.user? r.userID with
      | none => s
      | some user =>
          match proposalCheck s.db user r.proposal r.decision r.now with
          | .error _ => s
          | .ok b => { s with inFlight := s.inFlight ++ [b] }
  | .commit i =>
      match s.inFlight[i]? with
      | none => s
      | some b => { db := proposalCommit s.db b, inFlight := s.inFlight.eraseIdx i }

end Aurweb.Proposals
