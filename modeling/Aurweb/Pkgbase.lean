/-
What can be done to a package base: `aurweb/pkgbase/util.py`, `validate.py` and
`actions.py`.

Each function that opens a transaction is one function of the database here.  The row
of the package base is the one the route has read.
-/
import Mathlib.Data.List.Sort
import Aurweb.Requests

namespace Aurweb

/-! ### Rows of a package base -/

def PackageComaintainer.of (c : PackageComaintainer) (baseID : Nat) : Bool :=
  c.packageBaseID == baseID

/-- `pkgbase.comaintainers.order_by(PackageComaintainer.Priority.asc())`. -/
def byPriority (db : Db) (baseID : Nat) : List PackageComaintainer :=
  (db.packageComaintainers.filter (·.of baseID)).insertionSort fun a b => a.priority ≤ b.priority

/-- `[c.User for c in pkgbase.comaintainers]`, as the ids `has_credential` takes. -/
def comaintainerIDs (db : Db) (baseID : Nat) : List (Option Nat) :=
  (db.packageComaintainers.filter (·.of baseID)).map (some ·.usersID)

def isComaintainer (db : Db) (baseID uid : Nat) : Bool :=
  (comaintainerIDs db baseID).contains (some uid)

/-- `pkgbase.Maintainer = …`. -/
def setMaintainer (db : Db) (baseID : Nat) (uid : Option Nat) : Db :=
  db.updatePackageBase baseID fun b => { b with maintainerUID := uid }

/-- `db.delete_all` on some of the comaintainers of a base. -/
def deleteComaintainers (db : Db) (baseID : Nat) (p : PackageComaintainer → Bool) : Db :=
  { db with
    packageComaintainers := Table.delete (fun c => c.of baseID && p c) db.packageComaintainers }

def insertComaintainer (db : Db) (c : PackageComaintainer) : Db :=
  { db with packageComaintainers := db.packageComaintainers ++ [c] }

/-! ### `aurweb/pkgbase/util.py` -/

/-- `rotate_comaintainers`. -/
def rotateComaintainers (db : Db) (baseID : Nat) : Db :=
  let order := (byPriority db baseID).map (·.usersID)
  { db with
    packageComaintainers := Table.update (·.of baseID)
      (fun c => { c with priority := order.idxOf c.usersID + 1 }) db.packageComaintainers }

/-- `remove_comaintainer`: without autoflush the row is still there to be counted when the
others are renumbered. -/
def removeComaintainer (db : Db) (baseID uid : Nat) : Db :=
  deleteComaintainers (rotateComaintainers db baseID) baseID (·.usersID == uid)

/-- `User.Username.in_(usernames)`, for the account of a row. -/
def namedIn (cfg : Config) (db : Db) (usernames : List String) (uid : Nat) : Bool :=
  db.users.any fun u => u.id == uid && usernames.any (cfg.sameName u.username)

/-- `remove_comaintainers`. -/
def removeComaintainers (cfg : Config) (db : Db) (baseID : Nat) (usernames : List String) : Db :=
  rotateComaintainers
    (deleteComaintainers db baseID fun c => namedIn cfg db usernames c.usersID) baseID

/-- `latest_priority`. -/
def latestPriority (db : Db) (baseID : Nat) : Nat :=
  ((byPriority db baseID).getLast?.map (·.priority)).getD 0

/-- `add_comaintainer`. -/
def addComaintainer (pkgbase : PackageBase) (db : Db) (comaintainer : User) : Db :=
  if pkgbase.maintainerUID = some comaintainer.id then db
  else
    insertComaintainer db
      { usersID := comaintainer.id, packageBaseID := pkgbase.id
        priority := latestPriority db pkgbase.id + 1 }

/-- `db.query(User).filter(User.Username == username).first()`. -/
def userNamed (cfg : Config) (db : Db) (username : String) : Option User :=
  db.users.find? fun u => cfg.sameName u.username username

/-- `add_comaintainers`: nobody is added when a name is unknown. -/
def addComaintainers (cfg : Config) (db : Db) (pkgbase : PackageBase) (usernames : List String) :
    Except String Db :=
  match usernames.find? fun username => (userNamed cfg db username).isNone with
  | some username => .error s!"Invalid user name: {username}"
  | none =>
      .ok ((usernames.filterMap (userNamed cfg db)).foldl (addComaintainer pkgbase) db)

/-! ### `aurweb/pkgbase/validate.py` -/

/-- `comment`. -/
def validateComment (cfg : Config) (comment : String) : Except String Unit :=
  if comment = "" then .error "The comment field must not be empty."
  else if cfg.maxCharsComment < comment.length then
    .error "Maximum number of characters for comment exceeded."
  else .ok ()

/-- `comment_raise_http_ex`, where a route asks for it only when there is a comment. -/
def optionalComment (cfg : Config) (comments : String) : Except String Unit :=
  if comments = "" then .ok () else validateComment cfg comments

def baseNamed (cfg : Config) (db : Db) (name : String) : Option PackageBase :=
  db.packageBases.find? fun b => cfg.sameName b.name name

/-- The checks of `request` on a merge. -/
def validateMerge (cfg : Config) (db : Db) (pkgbase : PackageBase) (mergeInto : Option String) :
    Except String Unit :=
  match mergeInto with
  | none => .error "The \"Merge into\" field must not be empty."
  | some name =>
      if name = "" then .error "The \"Merge into\" field must not be empty."
      else
        match baseNamed cfg db name with
        | none => .error "The package base you want to merge into does not exist."
        | some target =>
            if target.id = pkgbase.id then
              .error "You cannot merge a package base into itself."
            else .ok ()

/-- The checks of `request` on an adoption. -/
def validateAdoption (db : Db) (pkgbase : PackageBase) : Except String Unit :=
  if pkgbase.maintainerUID.isSome then
    .error ("You cannot request adoption of a package base that " ++
      "already has a maintainer.")
  else if db.packageRequests.any fun r => r.concerns pkgbase && r.isPending .adoption then
    .error "There is already a pending adoption request for this package base."
  else .ok ()

/-- `request`. -/
def validateRequest (cfg : Config) (db : Db) (pkgbase : PackageBase) (type : RequestType)
    (comments : String) (mergeInto : Option String) : Except String Unit :=
  match validateComment cfg comments with
  | .error message => .error message
  | .ok () =>
      match type with
      | .merge => validateMerge cfg db pkgbase mergeInto
      | .adoption => validateAdoption db pkgbase
      | .deletion | .orphan => .ok ()

/-! ### `aurweb/pkgbase/actions.py` -/

def notified (db : Db) (baseID uid : Nat) : Bool :=
  db.packageNotifications.any fun n => n.packageBaseID == baseID && n.userID == uid

/-- `db.create(PackageNotification, …)`. -/
def insertNotification (db : Db) (baseID uid : Nat) : Db :=
  { db with
    packageNotifications :=
      db.packageNotifications ++ [{ packageBaseID := baseID, userID := uid }] }

/-- `pkgbase_notify_instance`. -/
def pkgbaseNotifyInstance (db : Db) (user : User) (pkgbase : PackageBase) : Db :=
  if hasCredential user .pkgbaseNotify [] && !notified db pkgbase.id user.id then
    insertNotification db pkgbase.id user.id
  else db

/-- `pkgbase_unnotify_instance`. -/
def pkgbaseUnnotifyInstance (db : Db) (user : User) (pkgbase : PackageBase) : Db :=
  if hasCredential user .pkgbaseNotify [] then
    { db with
      packageNotifications :=
        Table.delete (fun n => n.packageBaseID == pkgbase.id && n.userID == user.id)
          db.packageNotifications }
  else db

/-- `pkgbase_unflag_instance`. -/
def pkgbaseUnflagInstance (db : Db) (user : User) (pkgbase : PackageBase) : Db :=
  if hasCredential user .pkgbaseUnflag
      ([pkgbase.flaggerUID, pkgbase.maintainerUID] ++ comaintainerIDs db pkgbase.id) then
    db.updatePackageBase pkgbase.id fun b =>
      { b with outOfDateTS := none, flaggerUID := none, flaggerComment := "" }
  else db

/-- The transaction of a maintainer's disowning in `_retry_disown`. -/
def stepDown (db : Db) (baseID : Nat) : Db :=
  match (byPriority db baseID).head? with
  | some next =>
      -- Comaintainer with the lowest Priority value; next-in-line.
      removeComaintainer (setMaintainer db baseID (some next.usersID)) baseID next.usersID
  | none => setMaintainer db baseID none

/-- The transaction of an enforced disowning. -/
def orphan (db : Db) (baseID : Nat) : Db :=
  deleteComaintainers (setMaintainer db baseID none) baseID fun _ => true

/-- `_retry_disown`, which is all of `pkgbase_disown_instance` but its notifications. -/
def pkgbaseDisownInstance (cfg : Config) (db : Db) (user : User) (pkgbase : PackageBase)
    (now : Nat) : Outcome :=
  if pkgbase.maintainerUID = some user.id then done (stepDown db pkgbase.id)
  else if isComaintainer db pkgbase.id user.id then
    done (removeComaintainer db pkgbase.id user.id)
  else if hasCredential user .pkgbaseDisown [] then
    (handleRequest cfg db user .orphan pkgbase none "" none now).andThen fun db =>
      done (orphan db pkgbase.id)
  else done db

/-- `pkgreq and pkgreq.User`: whom an adoption makes the maintainer, and the requests it
accepts. -/
def grant (user : User) (pkgreq : Option PackageRequest) : Nat × List Nat :=
  match pkgreq with
  | some r =>
      match r.usersID with
      | some requester => (requester, [r.id])
      | none => (user.id, [])
  | none => (user.id, [])

/-- `pkgbase_adopt_instance`. -/
def pkgbaseAdoptInstance (cfg : Config) (db : Db) (user : User) (pkgbase : PackageBase)
    (pkgreq : Option PackageRequest) (now : Nat) : Outcome :=
  if hasCredential user .pkgbaseAdopt [] then
    let (newMaintainer, acceptIDs) := grant user pkgreq
    handleRequest cfg (setMaintainer db pkgbase.id (some newMaintainer)) user .adoption pkgbase
      none "" (some acceptIDs) now
  else if db.packageRequests.any fun r => r.concerns pkgbase && r.isPending .adoption then
    done db
  else
    done (insertRequest db
      (newRequest .adoption user pkgbase none "Autogenerated by aurweb." "" now))

/-- `pkgbase_delete_instance`. -/
def pkgbaseDeleteInstance (cfg : Config) (db : Db) (user : User) (pkgbase : PackageBase)
    (comments : String) (now : Nat) : Outcome :=
  (handleRequest cfg db user .deletion pkgbase none comments none now).andThen fun db =>
    done ((updateClosureComment cfg db pkgbase .deletion comments none).deletePackageBase
      pkgbase.id)

/-- The votes of a base, counted: `popupdate.run_single`. -/
def popupdate (db : Db) (baseID : Nat) : Db :=
  db.updatePackageBase baseID fun b =>
    { b with numVotes := db.packageVotes.countP (·.packageBaseID == baseID) }

/-- The first transaction of `_retry_merge`: whoever votes for the target or follows it
already keeps one row. -/
def moveRows (db : Db) (pkgbase target : PackageBase) : Db :=
  let votes := fun uid => db.packageVotes.any fun v =>
    v.packageBaseID == target.id && v.usersID == uid
  { db with
    packageComments := Table.update (·.packageBaseID == pkgbase.id)
      (fun c => { c with packageBaseID := target.id }) db.packageComments
    packageNotifications := Table.update
      (fun n => n.packageBaseID == pkgbase.id && !notified db target.id n.userID)
      (fun n => { n with packageBaseID := target.id }) db.packageNotifications
    packageVotes := Table.update (fun v => v.packageBaseID == pkgbase.id && !votes v.usersID)
      (fun v => { v with packageBaseID := target.id }) db.packageVotes }

/-- `_retry_merge`. -/
def retryMerge (db : Db) (pkgbase target : PackageBase) : Db :=
  (popupdate (moveRows db pkgbase target) target.id).deletePackageBase pkgbase.id

/-- `pkgbase_merge_instance`. -/
def pkgbaseMergeInstance (cfg : Config) (db : Db) (user : User) (pkgbase target : PackageBase)
    (comments : String) (now : Nat) : Outcome :=
  (handleRequest cfg db user .merge pkgbase (some target) comments none now).andThen fun db =>
    done (retryMerge db pkgbase target)

end Aurweb
