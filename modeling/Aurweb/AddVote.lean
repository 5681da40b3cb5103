/-
New proposals: `package_maintainer_addvote_post` and `populate_package_maintainer_counts` of
`aurweb/routers/package_maintainer.py`.

A proposal is recorded with the number of active maintainers at the time, and what is shown of
its participation and acceptance is computed against that number ever after.
-/
import Aurweb.Auth

namespace Aurweb.AddVote

/-- `User.InactivityTS` as a query sees it; the column is not null. -/
def inactivityTS (u : User) : Option Nat := some u.inactivityTS

/-- `populate_package_maintainer_counts`: all of them, and the active ones. -/
def populatePackageMaintainerCounts (db : Db) : Nat × Nat :=
  let pmQuery := db.users.filter fun u => packageMaintainer.contains u.accountType
  let activePMQuery := pmQuery.filter fun u => inactivityTS u == none || inactivityTS u == some 0
  (pmQuery.length, activePMQuery.length)

/-- `active_pms`. -/
def activePMs (db : Db) : Nat :=
  (db.users.filter fun u => !u.suspended && inactivityTS u != none &&
    packageMaintainer.contains u.accountType).length

/-- `ADDVOTE_SPECIFICS`: the duration, and the quorum in hundredths. -/
def addvoteSpecifics : String → Option (Nat × Nat)
  | "add_pm" => some (7 * 24 * 60 * 60, 66)
  | "remove_pm" => some (7 * 24 * 60 * 60, 75)
  | "remove_inactive_pm" => some (5 * 24 * 60 * 60, 66)
  | "bylaws" => some (7 * 24 * 60 * 60, 75)
  | _ => none

/-- `html.escape`. -/
def htmlEscape (s : String) : String :=
  String.ofList (s.toList.flatMap fun c =>
    match c with
    | '&' => "&amp;".toList
    | '<' => "&lt;".toList
    | '>' => "&gt;".toList
    | '"' => "&quot;".toList
    | '\'' => "&#x27;".toList
    | c => [c])

/-- A row of `VoteInfo` with the columns that nothing writes again. -/
structure Proposal where
  info : VoteInfo
  agenda : String
  submitted : Nat
  /-- In hundredths. -/
  quorum : Nat
  activeUsers : Nat
  deriving DecidableEq, Repr

/-- The checks of `package_maintainer_addvote_post`; what is left is duration and quorum. -/
def addvoteCheck (cfg : Config) (db : Db) (user type agenda : String) (now : Nat) :
    Except Response (Nat × Nat) :=
  if type != "bylaws" && !(db.users.any fun u => cfg.sameName u.username user) then
    .error (.render 404 ["Username does not exist."])
  else if type != "bylaws" &&
      db.voteInfo.any fun v => cfg.sameName v.user user && decide (now < v.endTS) then
    .error (.render 400 [htmlEscape user ++ " already has proposal running for them."])
  else
    match addvoteSpecifics type with
    | none => .error (.render 400 ["Invalid type."])
    | some specifics =>
        if agenda = "" then .error (.render 400 ["Proposal cannot be empty."])
        else .ok specifics

/-- The proposal that is created. -/
def newProposal (db : Db) (submitter : User) (user agenda : String) (specifics : Nat × Nat)
    (now : Nat) : Proposal where
  info := {
    id := db.nextID, user := user, endTS := now + specifics.1, submitterID := submitter.id
    yes := 0, no := 0, abstain := 0 }
  agenda := htmlEscape agenda
  submitted := now
  quorum := specifics.2
  activeUsers := activePMs db

/-- `package_maintainer_addvote_post`, with the row it has created. -/
def packageMaintainerAddvotePost (cfg : Config) (db : Db) (submitter : User)
    (user type agenda : String) (now : Nat) : Response × Db × Option Proposal :=
  if !packageMaintainer.contains submitter.accountType then
    (.redirect "/package-maintainer", db, none)
  else
    match addvoteCheck cfg db user type agenda now with
    | .error r => (r, db, none)
    | .ok specifics =>
        let voteinfo := newProposal db submitter user agenda specifics now
        (.redirect s!"/package-maintainer/{voteinfo.info.id}",
          { db with voteInfo := db.voteInfo ++ [voteinfo.info], nextID := db.nextID + 1 },
          some voteinfo)

end Aurweb.AddVote
