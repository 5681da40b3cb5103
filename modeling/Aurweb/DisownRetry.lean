/-
A web disown, transaction by transaction: `pkgbase_disown_post` of `aurweb/routers/pkgbase.py`
and what it calls, under `retry_deadlock` of `aurweb/db.py`.

The row of the package base is still what the route has read when something is tried again:
only the last transaction writes it.  `router.post` registers the route before
`async_retry_deadlock` is put around it, so the transaction of the route itself is not
retried.
-/
import Aurweb.Lib.Retry
import Aurweb.Routers

namespace Aurweb.DisownRetry

/-- The transactions of a web disown. -/
inductive Point
  /-- The closure comment, written by the route. -/
  | comments
  /-- The request that `handle_request` creates when there is nothing to accept. -/
  | creation
  /-- `retry_closures`. -/
  | closures
  /-- The transaction of `_retry_disown`. -/
  | disowning
  deriving DecidableEq, Repr

abbrev World := Retry.World Point Db

abbrev Program := Retry.Program Raised World Unit

/-- MySQL has found a deadlock. -/
def deadlock : Raised := .other "OperationalError"

/-- `retry_deadlock`, with its `limit`. -/
def retryDeadlock (p : Program) : Program := Retry.retry (· == deadlock) p 10

def transaction (point : Point) (body : Db → Outcome) : Program :=
  Retry.transaction deadlock point body

/-- `handle_request` without its decorator; `found` is what its queries read. -/
def handleFound (cfg : Config) (user : User) (reqType : RequestType) (pkgbase : PackageBase)
    (target : Option PackageBase) (comments : String) (acceptIDs : Option (List Nat)) (now : Nat)
    (found : Db) : Program :=
  if reqType = .orphan ∧ verifyOrphanRequest cfg found pkgbase now = false then fun w =>
    (.error (.invariant s!"No due existing orphan requests to accept for {pkgbase.name}."), w)
  else
    let query := found.packageRequests.filter (queried cfg reqType pkgbase)
    let toAccept := (query.filter (accepts cfg target acceptIDs)).map (·.id)
    let toReject := (query.map (·.id)).filter fun id => !toAccept.contains id
    let closures := fun toAccept => retryDeadlock (transaction .closures fun db =>
      retryClosures db user pkgbase target toAccept toReject now)
    if toAccept.isEmpty then
      let mergeInto := if reqType = .merge then target.map (·.name) else none
      let created := newRequest reqType user pkgbase mergeInto "Autogenerated by aurweb."
        comments now
      Retry.andThen (transaction .creation fun db => done (insertRequest db created))
        fun _ => closures [found.nextID]
    else closures toAccept

/-- `handle_request`. -/
def handleRequest (cfg : Config) (user : User) (reqType : RequestType) (pkgbase : PackageBase)
    (target : Option PackageBase) (comments : String) (acceptIDs : Option (List Nat))
    (now : Nat) : Program :=
  retryDeadlock fun w =>
    handleFound cfg user reqType pkgbase target comments acceptIDs now w.stored w

/-- `_retry_disown` without its decorator. -/
def disownFound (cfg : Config) (user : User) (pkgbase : PackageBase) (now : Nat) (found : Db) :
    Program :=
  if pkgbase.maintainerUID = some user.id then
    transaction .disowning fun db => done (stepDown db pkgbase.id)
  else if isComaintainer found pkgbase.id user.id then
    transaction .disowning fun db => done (removeComaintainer db pkgbase.id user.id)
  else if hasCredential user .pkgbaseDisown [] then
    Retry.andThen (handleRequest cfg user .orphan pkgbase none "" none now)
      fun _ => transaction .disowning fun db => done (orphan db pkgbase.id)
  else fun w => (.ok (), w)

/-- `_retry_disown`. -/
def retryDisown (cfg : Config) (user : User) (pkgbase : PackageBase) (now : Nat) : Program :=
  retryDeadlock fun w => disownFound cfg user pkgbase now w.stored w

/-- What the visitor is told in the end. -/
def answer (next name : String) : Except Raised Unit → Response
  | .ok () => nextOr next s!"/pkgbase/{name}"
  | .error (.http status detail) => .httpException status detail
  | .error (.invariant message) => .render 400 [message]
  | .error (.other exception) => .serverError exception

/-- What the form writes, once it has been checked. -/
def disownChecked (cfg : Config) (user : User) (pkgbase : PackageBase) (comments : String)
    (now : Nat) (found : Db) : Program :=
  let commented : Program :=
    if pkgbase.maintainerUID ≠ some user.id ∧
        (comaintainerIDs found pkgbase.id).contains (some user.id) = false then
      transaction .comments fun db =>
        done (updateClosureComment cfg db pkgbase .orphan comments none)
    else fun w => (.ok (), w)
  Retry.andThen commented fun _ => retryDisown cfg user pkgbase now

/-- `pkgbase_disown_post`. -/
def pkgbaseDisownPost (cfg : Config) (user : User) (name comments : String) (confirm : Bool)
    (next : String) (now : Nat) (w : World) : Response × World :=
  match baseNamed cfg w.stored name with
  | none => (.httpException 404 "Not Found", w)
  | some pkgbase =>
      match optionalComment cfg comments with
      | .error message => (.httpException 400 message, w)
      | .ok () =>
          if !hasCredential user .pkgbaseDisown
              (pkgbase.maintainerUID :: comaintainerIDs w.stored pkgbase.id) then
            (.redirect s!"/pkgbase/{name}", w)
          else if !confirm then
            (.render 400 ["The selected packages have not been disowned, " ++
              "check the confirmation checkbox."], w)
          else
            let (result, w) := disownChecked cfg user pkgbase comments now w.stored w
            (answer next name result, w)

end Aurweb.DisownRetry
