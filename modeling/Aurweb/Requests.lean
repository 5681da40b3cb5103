/-
Package requests: `aurweb/packages/requests.py`, `aurweb/routers/requests.py` and
`aurweb/scripts/requestmaint.py`.

A function that may raise returns how it ended together with the database it leaves,
because what it committed before it raised stays.  Notifications are not modelled.  A
route reads the clock once here, in seconds, where the code reads it once for each
transaction.
-/
import Aurweb.Auth

namespace Aurweb

/-- What a route raises instead of answering. -/
inductive Raised
  | http (status : Nat) (detail : String)
  /-- `InvariantError`. -/
  | invariant (message : String)
  | other (exception : String)
  deriving DecidableEq, Repr

/-- How a function ended, and what is stored then. -/
abbrev Outcome := Except Raised Unit × Db

def done (db : Db) : Outcome := (.ok (), db)

/-- The next statement, unless one before it has raised. -/
def Outcome.andThen (o : Outcome) (next : Db → Outcome) : Outcome :=
  match o.1 with
  | .ok () => next o.2
  | .error e => (.error e, o.2)

/-- What the visitor sees: `success`, or what became of the exception. -/
def Outcome.response (o : Outcome) (success : Response) : Response × Db :=
  match o.1 with
  | .ok () => (success, o.2)
  | .error (.http status detail) => (.httpException status detail, o.2)
  | .error (.invariant _) => (.serverError "InvariantError", o.2)
  | .error (.other exception) => (.serverError exception, o.2)

/-- `pkgbase.requests`, on one row. -/
def PackageRequest.concerns (r : PackageRequest) (pkgbase : PackageBase) : Bool :=
  r.packageBaseID == some pkgbase.id

/-- `ReqTypeID == reqtype_id` and `Status == PENDING_ID`. -/
def PackageRequest.isPending (r : PackageRequest) (reqType : RequestType) : Bool :=
  r.reqType == reqType && r.status == .pending

/-- `MergeBaseName == target.Name`. -/
def PackageRequest.mergesInto (cfg : Config) (target : Option PackageBase) (r : PackageRequest) :
    Bool :=
  match target, r.mergeBaseName with
  | some t, some name => cfg.sameName name t.name
  | _, _ => false

/-- `db.create(PackageRequest, …)`. -/
def insertRequest (db : Db) (r : PackageRequest) : Db :=
  { db with packageRequests := db.packageRequests ++ [{ r with id := db.nextID }]
            nextID := db.nextID + 1 }

def updateRequests (db : Db) (p : PackageRequest → Bool) (f : PackageRequest → PackageRequest) :
    Db :=
  { db with packageRequests := Table.update p f db.packageRequests }

/-- A request as it is filed: pending, and closed by nobody. -/
def newRequest (reqType : RequestType) (user : User) (pkgbase : PackageBase)
    (mergeInto : Option String) (comments closureComment : String) (now : Nat) :
    PackageRequest where
  id := 0
  reqType := reqType
  packageBaseID := some pkgbase.id
  packageBaseName := pkgbase.name
  mergeBaseName := mergeInto
  usersID := some user.id
  comments := comments
  closureComment := closureComment
  requestTS := now
  closedTS := none
  closedUID := none
  status := .pending

/-! ### `aurweb/packages/requests.py` -/

/-- `ClosureFactory.get_closure`. -/
def getClosure (reqType : RequestType) (pkgbase : PackageBase) (target : Option PackageBase)
    (status : RequestStatus) : Except Raised String :=
  match reqType, target with
  | .deletion, _ =>
      if status = .rejected then .error (.other "NotImplementedError")
      else .ok s!"[Autogenerated] Accepted deletion for {pkgbase.name}."
  | .orphan, _ =>
      if status = .rejected then .error (.other "NotImplementedError")
      else .ok s!"[Autogenerated] Accepted orphan for {pkgbase.name}."
  | .adoption, _ =>
      if status = .rejected then .ok s!"[Autogenerated] Rejected adoption for {pkgbase.name}."
      else .ok s!"[Autogenerated] Accepted adoption for {pkgbase.name}."
  | .merge, none => .error (.other "AttributeError")
  | .merge, some t =>
      if status = .rejected then
        .ok (s!"[Autogenerated] Another request to merge {pkgbase.name} " ++
          s!"into {t.name} has rendered this request invalid.")
      else .ok s!"[Autogenerated] Accepted merge for {pkgbase.name} into {t.name}."

/-- `update_closure_comment`. -/
def updateClosureComment (cfg : Config) (db : Db) (pkgbase : PackageBase) (reqType : RequestType)
    (comments : String) (target : Option PackageBase) : Db :=
  if comments = "" then db
  else
    updateRequests db
      (fun r => r.concerns pkgbase && r.isPending reqType &&
        (reqType != .merge || r.mergesInto cfg target))
      fun r => { r with closureComment := comments }

/-- `verify_orphan_request`; the difference is compared with a term moved over. -/
def verifyOrphanRequest (cfg : Config) (db : Db) (pkgbase : PackageBase) (now : Nat) : Bool :=
  db.packageRequests.any fun r =>
    r.concerns pkgbase && r.isPending .orphan && decide (r.requestTS + cfg.requestIdleTime < now)

/-- `close_pkgreq`. -/
def closePkgreq (closer : User) (pkgbase : PackageBase) (target : Option PackageBase)
    (status : RequestStatus) (now : Nat) (r : PackageRequest) : Except Raised PackageRequest :=
  let comment :=
    if r.closureComment = "" then getClosure r.reqType pkgbase target status
    else .ok r.closureComment
  comment.map fun comment =>
    { r with
      status := status, closedUID := some closer.id, closureComment := comment
      closedTS := some now }

/-- `retry_closures`: one transaction. -/
def retryClosures (db : Db) (closer : User) (pkgbase : PackageBase) (target : Option PackageBase)
    (toAccept toReject : List Nat) (now : Nat) : Outcome :=
  let close := fun r : PackageRequest =>
    if toAccept.contains r.id then closePkgreq closer pkgbase target .accepted now r
    else if toReject.contains r.id then closePkgreq closer pkgbase target .rejected now r
    else .ok r
  match db.packageRequests.mapM close with
  | .error e => (.error e, db)
  | .ok rows => done { db with packageRequests := rows }

/-- The base query of `handle_request`. -/
def queried (cfg : Config) (reqType : RequestType) (pkgbase : PackageBase) (r : PackageRequest) :
    Bool :=
  r.concerns pkgbase && r.isPending reqType && cfg.sameName r.packageBaseName pkgbase.name

/-- `accept_query`, on a row of the base query. -/
def accepts (cfg : Config) (target : Option PackageBase) (acceptIDs : Option (List Nat))
    (r : PackageRequest) : Bool :=
  if target.isSome then r.mergesInto cfg target
  else
    match acceptIDs with
    | some ids => ids.contains r.id
    | none => true

/-- `handle_request`. -/
def handleRequest (cfg : Config) (db : Db) (user : User) (reqType : RequestType)
    (pkgbase : PackageBase) (target : Option PackageBase) (comments : String)
    (acceptIDs : Option (List Nat)) (now : Nat) : Outcome :=
  if reqType = .orphan ∧ verifyOrphanRequest cfg db pkgbase now = false then
    (.error (.invariant s!"No due existing orphan requests to accept for {pkgbase.name}."), db)
  else
    let query := db.packageRequests.filter (queried cfg reqType pkgbase)
    let toAccept := (query.filter (accepts cfg target acceptIDs)).map (·.id)
    let toReject := (query.map (·.id)).filter fun id => !toAccept.contains id
    if toAccept.isEmpty then
      -- Nothing to accept: the action is put on record as a request of its own.
      let mergeInto := if reqType = .merge then target.map (·.name) else none
      let created := insertRequest db
        (newRequest reqType user pkgbase mergeInto "Autogenerated by aurweb." comments now)
      retryClosures created user pkgbase target [db.nextID] toReject now
    else retryClosures db user pkgbase target toAccept toReject now

/-! ### `aurweb/routers/requests.py` -/

/-- `request_close_post`: what has become of the request since the page was opened is
not looked at. -/
def requestClosePost (db : Db) (user : User) (id : Nat) (comments : String) (now : Nat) :
    Response × Db :=
  match db.packageRequests.find? (·.id == id) with
  | none => (.httpException 404 "Not Found", db)
  | some pkgreq =>
      if !hasCredential user .pkgreqClose [pkgreq.usersID] then (.redirect "/", db)
      else
        (.redirect "/requests", updateRequests db (·.id == id) fun r =>
          { r with
            closedUID := some user.id, closureComment := comments, closedTS := some now
            status := .rejected })

/-! ### `aurweb/scripts/requestmaint.py` -/

/-- `_main`: adoption requests nobody has acted on in time. -/
def requestmaint (cfg : Config) (db : Db) (now : Nat) : Db :=
  updateRequests db
    (fun r => r.isPending .adoption && decide (r.requestTS + cfg.requestIdleTime < now))
    fun r =>
      { r with
        status := .rejected, closedTS := some now
        closureComment := s!"[Autogenerated] Rejected adoption for {r.packageBaseName}: " ++
          "no Package Maintainer acted on this request in time." }

/-! ### Which requests are open -/

/-- The number of pending requests on the package page (`pkgbase/util.py`) and in the answers
of `rpc.py`: both columns are tested. -/
def openRequests (db : Db) (baseID : Nat) : Nat :=
  db.packageRequests.countP fun r =>
    r.packageBaseID == some baseID && (r.status == .pending && r.closedTS.isNone)

/-- `pending_requests` of `statistics.py` tests `Status`. -/
def pendingRequests (db : Db) : Nat := db.packageRequests.countP (·.status == .pending)

/-- `requests.html` tests `ClosedTS` before it offers to close a request. -/
def PackageRequest.offersClose (r : PackageRequest) : Bool := r.closedTS.isNone

end Aurweb
