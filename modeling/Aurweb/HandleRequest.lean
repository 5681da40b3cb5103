/-
`handle_request` of `aurweb/packages/requests.py`, query by query.

The session commits by itself: the two queries, the request that is created when nothing is
accepted, and the closures are transactions of their own, and other users' requests are
served in between.  What a query has found are objects, and an object is what its row was when
it was read; a commit of the same session makes it be read again.  An update writes the
attributes that have changed.
-/
import Aurweb.Pkgbase

namespace Aurweb.HandleRequest

/-! ### Other users -/

/-- What other users do with requests on the package base. -/
inductive Event
  /-- `pkgbase_request_post`, as far as it files the request. -/
  | file (user : User) (reqType : RequestType) (mergeInto : Option String) (comments : String)
      (now : Nat)
  /-- `request_close_post`. -/
  | close (user : User) (id : Nat) (comments : String) (now : Nat)
  deriving DecidableEq, Repr

def Event.apply (pkgbase : PackageBase) (db : Db) : Event → Db
  | .file user reqType mergeInto comments now =>
      insertRequest db (newRequest reqType user pkgbase mergeInto comments "" now)
  | .close user id comments now => (requestClosePost db user id comments now).2

def applyAll (pkgbase : PackageBase) (db : Db) (events : List Event) : Db :=
  events.foldl (Event.apply pkgbase) db

/-- What happens before each statement of a call. -/
structure Others where
  beforeAccepts : List Event := []
  beforeRejects : List Event := []
  beforeCreation : List Event := []
  beforeClosures : List Event := []
  deriving DecidableEq, Repr

/-! ### `RequestCloseNotification` -/

/-- `STATUS_DISPLAY`. -/
def statusDisplay : RequestStatus → String
  | .pending => "Pending"
  | .closed => "Closed"
  | .accepted => "Accepted"
  | .rejected => "Rejected"

/-- `RequestCloseNotification`, as it is constructed. -/
structure Notification where
  uid : Nat
  reqID : Nat
  reason : String
  deriving DecidableEq, Repr

/-! ### Closing -/

/-- An object of the session, and what becomes of it. -/
abbrev Closure := PackageRequest × RequestStatus

/-- `close_pkgreq` on an object, and the update of its row. -/
def closeRow (closer : User) (pkgbase : PackageBase) (target : Option PackageBase) (now : Nat)
    (closure : Closure) (r : PackageRequest) : Except Raised PackageRequest :=
  (closePkgreq closer pkgbase target closure.2 now closure.1).map fun closed =>
    { r with
      status := closed.status, closedUID := closed.closedUID, closedTS := closed.closedTS
      closureComment :=
        if closure.1.closureComment = "" then closed.closureComment else r.closureComment }

/-- `retry_closures`. -/
def retryClosures (db : Db) (closer : User) (pkgbase : PackageBase) (target : Option PackageBase)
    (closures : List Closure) (now : Nat) : Outcome :=
  match db.packageRequests.mapM fun r =>
      match closures.find? (·.1.id == r.id) with
      | some closure => closeRow closer pkgbase target now closure r
      | none => .ok r with
  | .error e => (.error e, db)
  | .ok rows => done { db with packageRequests := rows }

/-- An object that is read again. -/
def refresh (db : Db) (r : PackageRequest) : PackageRequest :=
  (db.packageRequests.find? (·.id == r.id)).getD r

/-- The end of `handle_request`. -/
def notifications (user : User) (closures : List Closure) (o : Outcome) :
    Except Raised (List Notification) × Db :=
  match o with
  | (.error e, db) => (.error e, db)
  | (.ok (), db) =>
      (.ok (closures.map fun c => { uid := user.id, reqID := c.1.id, reason := statusDisplay c.2 }),
        db)

/-! ### `handle_request` -/

/-- `accept_query.all()`. -/
def toAccept (cfg : Config) (db : Db) (reqType : RequestType) (pkgbase : PackageBase)
    (target : Option PackageBase) (acceptIDs : Option (List Nat)) : List PackageRequest :=
  (db.packageRequests.filter (queried cfg reqType pkgbase)).filter (accepts cfg target acceptIDs)

/-- `to_reject`. -/
def toReject (cfg : Config) (db : Db) (reqType : RequestType) (pkgbase : PackageBase)
    (acceptedIDs : List Nat) : List PackageRequest :=
  (db.packageRequests.filter (queried cfg reqType pkgbase)).filter
    fun r => !acceptedIDs.contains r.id

/-- `handle_request`. -/
def handleRequest (cfg : Config) (db : Db) (user : User) (reqType : RequestType)
    (pkgbase : PackageBase) (target : Option PackageBase) (comments : String)
    (acceptIDs : Option (List Nat)) (now : Nat) (others : Others) :
    Except Raised (List Notification) × Db :=
  if reqType = .orphan ∧ verifyOrphanRequest cfg db pkgbase now = false then
    (.error (.invariant s!"No due existing orphan requests to accept for {pkgbase.name}."), db)
  else
    let db := applyAll pkgbase db others.beforeAccepts
    let accepted := toAccept cfg db reqType pkgbase target acceptIDs
    let db := applyAll pkgbase db others.beforeRejects
    let rejected := toReject cfg db reqType pkgbase (accepted.map (·.id))
    let db := applyAll pkgbase db others.beforeCreation
    if accepted.isEmpty then
      if reqType = .merge ∧ target.isNone then (.error (.other "AttributeError"), db)
      else
        let mergeInto := if reqType = .merge then target.map (·.name) else none
        let created :=
          { newRequest reqType user pkgbase mergeInto "Autogenerated by aurweb." comments now with
            id := db.nextID }
        let db := applyAll pkgbase (insertRequest db created) others.beforeClosures
        -- The commit has made the session forget what it had read.
        let closures := (refresh db created, RequestStatus.accepted) ::
          rejected.map fun r => (refresh db r, RequestStatus.rejected)
        notifications user closures (retryClosures db user pkgbase target closures now)
    else
      let db := applyAll pkgbase db others.beforeClosures
      let closures := accepted.map (·, RequestStatus.accepted) ++
        rejected.map (·, RequestStatus.rejected)
      notifications user closures (retryClosures db user pkgbase target closures now)

end Aurweb.HandleRequest
