/-
The forms: the POST routes of `aurweb/routers/pkgbase.py` and `packages.py`, and the
deletion of an account in `accounts.py`.

A form is posted by a logged-in user.  A field that the route turns into a set is a list
here, in the order the set is gone through; a selection of packages is the list of ids,
and the package bases are visited in the order it gives.
-/
import Mathlib.Data.List.Dedup
import Aurweb.Pkgbase

namespace Aurweb

/-! ### Looking things up -/

/-- `get_pkg_or_base`. -/
def getPkgOrBase (cfg : Config) (db : Db) (name : String)
    (route : PackageBase → Response × Db) : Response × Db :=
  match baseNamed cfg db name with
  | none => (.httpException 404 "Not Found", db)
  | some pkgbase => route pkgbase

/-- `get_pkgbase_comment`. -/
def getPkgbaseComment (db : Db) (pkgbase : PackageBase) (id : Nat)
    (route : PackageComment → Response × Db) : Response × Db :=
  match db.packageComments.find? fun c => c.packageBaseID == pkgbase.id && c.id == id with
  | none => (.httpException 404 "Not Found", db)
  | some comment => route comment

/-- A `ValidationError` turned into a 400. -/
def raiseHttp (db : Db) (check : Except String Unit) (route : Response × Db) : Response × Db :=
  match check with
  | .error message => (.httpException 400 message, db)
  | .ok () => route

/-- `next or url`. -/
def nextOr (next url : String) : Response := .redirect (if next = "" then url else next)

/-! ### Keywords, flags, votes and notifications -/

/-- The transaction of `pkgbase_keywords`; `words` are the lowercased keywords. -/
def setKeywords (cfg : Config) (db : Db) (baseID : Nat) (words : List String) : Db :=
  let mine := db.packageKeywords.filter (·.packageBaseID == baseID)
  let isOther := fun r : PackageKeyword => !words.any (cfg.sameName r.keyword)
  let others := (mine.filter isOther).map (·.keyword.toLower)
  let existing := (mine.filter fun r => !others.any (cfg.sameName r.keyword)).map
    (·.keyword.toLower)
  { db with
    packageKeywords :=
      Table.delete (fun r => r.packageBaseID == baseID && isOther r) db.packageKeywords ++
        (words.filter fun w => !existing.contains w).map fun w =>
          { packageBaseID := baseID, keyword := w } }

/-- `pkgbase_keywords`. -/
def pkgbaseKeywords (cfg : Config) (db : Db) (user : User) (name : String)
    (words : List String) : Response × Db :=
  getPkgOrBase cfg db name fun pkgbase =>
    if !hasCredential user .pkgbaseSetKeywords
        (pkgbase.maintainerUID :: comaintainerIDs db pkgbase.id) then
      (.render 401 [], db)
    else (.redirect s!"/pkgbase/{name}", setKeywords cfg db pkgbase.id words)

/-- `bool(pkgbase.OutOfDateTS)`. -/
def PackageBase.isOutOfDate (b : PackageBase) : Bool := b.outOfDateTS.getD 0 != 0

/-- `pkgbase_flag_post`. -/
def pkgbaseFlagPost (cfg : Config) (db : Db) (user : User) (name comments : String)
    (now : Nat) : Response × Db :=
  getPkgOrBase cfg db name fun pkgbase =>
    if comments = "" then
      (.render 400 ["The selected packages have not been flagged, please enter a comment."], db)
    else
      raiseHttp db (validateComment cfg comments) <|
        if hasCredential user .pkgbaseFlag [] && !pkgbase.isOutOfDate then
          (.redirect s!"/pkgbase/{name}", db.updatePackageBase pkgbase.id fun b =>
            { b with
              outOfDateTS := some now, flaggerUID := some user.id, flaggerComment := comments })
        else (.redirect s!"/pkgbase/{name}", db)

def hasPackageVote (db : Db) (baseID uid : Nat) : Bool :=
  db.packageVotes.any fun v => v.packageBaseID == baseID && v.usersID == uid

/-- `pkgbase_vote`. -/
def pkgbaseVote (cfg : Config) (db : Db) (user : User) (name : String) (now : Nat) :
    Response × Db :=
  getPkgOrBase cfg db name fun pkgbase =>
    if hasCredential user .pkgbaseVote [] && !hasPackageVote db pkgbase.id user.id then
      let vote := { usersID := user.id, packageBaseID := pkgbase.id, voteTS := now }
      (.redirect s!"/pkgbase/{name}",
        popupdate { db with packageVotes := db.packageVotes ++ [vote] } pkgbase.id)
    else (.redirect s!"/pkgbase/{name}", db)

/-- `pkgbase_unvote`. -/
def pkgbaseUnvote (cfg : Config) (db : Db) (user : User) (name : String) : Response × Db :=
  getPkgOrBase cfg db name fun pkgbase =>
    if hasCredential user .pkgbaseVote [] && hasPackageVote db pkgbase.id user.id then
      let votes := Table.delete (fun v => v.packageBaseID == pkgbase.id && v.usersID == user.id)
        db.packageVotes
      (.redirect s!"/pkgbase/{name}", popupdate { db with packageVotes := votes } pkgbase.id)
    else (.redirect s!"/pkgbase/{name}", db)

/-- The routes that do one thing to a base: `pkgbase_notify`, `pkgbase_unnotify`,
`pkgbase_unflag`. -/
def pkgbaseInstance (cfg : Config) (db : Db) (name : String) (action : PackageBase → Db) :
    Response × Db :=
  getPkgOrBase cfg db name fun pkgbase => (.redirect s!"/pkgbase/{name}", action pkgbase)

/-! ### Comments -/

/-- `pkgbase_comments_post`. -/
def pkgbaseCommentsPost (cfg : Config) (db : Db) (user : User) (name comment : String)
    (enableNotifications : Bool) : Response × Db :=
  getPkgOrBase cfg db name fun pkgbase =>
    raiseHttp db (validateComment cfg comment) <|
      let row : PackageComment :=
        { id := db.nextID, packageBaseID := pkgbase.id, usersID := some user.id
          comments := comment, editedUsersID := none, delUsersID := none }
      let commented := { db with
        packageComments := db.packageComments ++ [row], nextID := db.nextID + 1 }
      (.redirect s!"/pkgbase/{pkgbase.name}#comment-{row.id}",
        if enableNotifications && !notified db pkgbase.id user.id then
          insertNotification commented pkgbase.id user.id
        else commented)

def updateComment (db : Db) (id : Nat) (f : PackageComment → PackageComment) : Db :=
  { db with packageComments := Table.update (·.id == id) f db.packageComments }

/-- `pkgbase_comment_post`. -/
def pkgbaseCommentPost (cfg : Config) (db : Db) (user : User) (name : String) (id : Nat)
    (comment : String) (enableNotifications cancel : Bool) (next : String) : Response × Db :=
  if cancel then (.redirect s!"/pkgbase/{name}#comment-{id}", db)
  else
    getPkgOrBase cfg db name fun pkgbase =>
      getPkgbaseComment db pkgbase id fun row =>
        raiseHttp db (validateComment cfg comment) <|
          if row.usersID ≠ some user.id then (.httpException 401 "Unauthorized", db)
          else
            let edited :=
              if row.comments = comment then db
              else updateComment db id fun c =>
                { c with comments := comment, editedUsersID := some user.id }
            let page := if next = "" then s!"/pkgbase/{pkgbase.name}" else next
            (.redirect s!"{page}#comment-{id}",
              if enableNotifications && !notified edited pkgbase.id user.id then
                insertNotification edited pkgbase.id user.id
              else edited)

/-- `pkgbase_comment_delete` and `pkgbase_comment_undelete`: the comment stays, and its
deleter is set or cleared. -/
def setDeleter (cfg : Config) (db : Db) (user : User) (credential : Credential) (name : String)
    (id : Nat) (deleter : Option Nat) (detail next : String) : Response × Db :=
  getPkgOrBase cfg db name fun pkgbase =>
    getPkgbaseComment db pkgbase id fun row =>
      if !hasCredential user credential [row.usersID] then (.httpException 401 detail, db)
      else
        (nextOr next s!"/pkgbase/{name}", updateComment db id fun c =>
          { c with delUsersID := deleter })

def pkgbaseCommentDelete (cfg : Config) (db : Db) (user : User) (name : String) (id : Nat)
    (next : String) : Response × Db :=
  setDeleter cfg db user .commentDelete name id (some user.id)
    "You are not allowed to delete this comment." next

def pkgbaseCommentUndelete (cfg : Config) (db : Db) (user : User) (name : String) (id : Nat)
    (next : String) : Response × Db :=
  setDeleter cfg db user .commentUndelete name id none
    "You are not allowed to undelete this comment." next

/-! ### Ownership -/

/-- `pkgbase_disown_post`. -/
def pkgbaseDisownPost (cfg : Config) (db : Db) (user : User) (name comments : String)
    (confirm : Bool) (next : String) (now : Nat) : Response × Db :=
  getPkgOrBase cfg db name fun pkgbase =>
    raiseHttp db (optionalComment cfg comments) <|
      let comaints := comaintainerIDs db pkgbase.id
      if !hasCredential user .pkgbaseDisown (pkgbase.maintainerUID :: comaints) then
        (.redirect s!"/pkgbase/{name}", db)
      else if !confirm then
        (.render 400 ["The selected packages have not been disowned, " ++
          "check the confirmation checkbox."], db)
      else
        let commented :=
          if pkgbase.maintainerUID ≠ some user.id ∧ comaints.contains (some user.id) = false then
            updateClosureComment cfg db pkgbase .orphan comments none
          else db
        match pkgbaseDisownInstance cfg commented user pkgbase now with
        | (.error (.invariant message), db) => (.render 400 [message], db)
        | outcome => Outcome.response outcome (nextOr next s!"/pkgbase/{name}")

/-- `pending_adoption_request`. -/
def pendingAdoptionRequest (db : Db) (pkgbase : PackageBase) (via : Nat) :
    Option PackageRequest :=
  if via = 0 then none
  else db.packageRequests.find? fun r =>
    r.concerns pkgbase && r.id == via && r.isPending .adoption

/-- `pkgbase_adopt_post`. -/
def pkgbaseAdoptPost (cfg : Config) (db : Db) (user : User) (name next : String) (via now : Nat) :
    Response × Db :=
  getPkgOrBase cfg db name fun pkgbase =>
    let hasCred := hasCredential user .pkgbaseAdopt []
    if hasCred || pkgbase.maintainerUID.isNone then
      let pkgreq := if hasCred then pendingAdoptionRequest db pkgbase via else none
      (pkgbaseAdoptInstance cfg db user pkgbase pkgreq now).response
        (nextOr next s!"/pkgbase/{name}")
    else (nextOr next s!"/pkgbase/{name}", db)

/-- `[c.User.Username for c in pkgbase.comaintainers]`. -/
def comaintainerNames (db : Db) (baseID : Nat) : List String :=
  (db.packageComaintainers.filter (·.of baseID)).filterMap fun c =>
    (db.user? c.usersID).map (·.username)

/-- `pkgbase_comaintainers_post`; `users` are the lines of the form, in whichever order the
set of them is gone through. -/
def pkgbaseComaintainersPost (cfg : Config) (db : Db) (user : User) (name : String)
    (users : List String) : Response × Db :=
  getPkgOrBase cfg db name fun pkgbase =>
    if !hasCredential user .pkgbaseEditComaintainers [pkgbase.maintainerUID] then
      (.redirect s!"/pkgbase/{name}", db)
    else
      let records := comaintainerNames db pkgbase.id
      let removed := removeComaintainers cfg db pkgbase.id
        (records.filter fun username => !users.contains username)
      match addComaintainers cfg removed pkgbase
        (users.dedup.filter fun username => !records.contains username) with
      | .error message => (.render 200 [message], removed)
      | .ok added => (.redirect s!"/pkgbase/{pkgbase.name}", added)

/-! ### Requests, deletions and merges -/

/-- `types`. -/
def RequestType.ofString : String → Option RequestType
  | "deletion" => some .deletion
  | "merge" => some .merge
  | "orphan" => some .orphan
  | "adoption" => some .adoption
  | _ => none

/-- The first half of `pkgbase_request_post`: what is filed, or the page that says why
nothing is. -/
def requestCheck (cfg : Config) (db : Db) (name type : String) (mergeInto : Option String)
    (comments : String) : Except Response (PackageBase × RequestType) :=
  match baseNamed cfg db name with
  | none => .error (.httpException 404 "Not Found")
  | some pkgbase =>
      match RequestType.ofString type with
      | none => .error (.render 400 [])
      | some reqType =>
          match validateRequest cfg db pkgbase reqType comments mergeInto with
          | .error message => .error (.render 200 [message])
          | .ok () => .ok (pkgbase, reqType)

/-- `flagged`: out of date for `auto_orphan_age` seconds. -/
def PackageBase.flagged (cfg : Config) (b : PackageBase) (now : Nat) : Bool :=
  match b.outOfDateTS with
  | none => false
  | some ts => ts != 0 && decide (ts + cfg.autoOrphanAge ≤ now)

/-- `outdated`: submitted no longer than `auto_delete_age` seconds ago. -/
def PackageBase.outdated (cfg : Config) (b : PackageBase) (now : Nat) : Bool :=
  decide (now ≤ b.submittedTS + cfg.autoDeleteAge)

/-- The transaction that accepts an orphan request on the spot. -/
def autoOrphan (db : Db) (baseID reqID : Nat) : Db :=
  updateRequests (setMaintainer db baseID none) (·.id == reqID) fun r =>
    { r with status := .accepted }

/-- `pkgbase_request_post`. -/
def pkgbaseRequestPost (cfg : Config) (db : Db) (user : User) (name type : String)
    (mergeInto : Option String) (comments : String) (now : Nat) : Response × Db :=
  match requestCheck cfg db name type mergeInto comments with
  | .error r => (r, db)
  | .ok (pkgbase, reqType) =>
      let filed := insertRequest db (newRequest reqType user pkgbase mergeInto comments "" now)
      if reqType = .orphan ∧ pkgbase.flagged cfg now then
        (.redirect "/packages", autoOrphan filed pkgbase.id db.nextID)
      else if reqType = .deletion ∧ pkgbase.maintainerUID = some user.id ∧
          pkgbase.outdated cfg now then
        (pkgbaseDeleteInstance cfg filed user pkgbase comments now).response
          (.redirect "/packages")
      else (.redirect "/packages", filed)

def deletionNotConfirmed : List String :=
  ["The selected packages have not been deleted, check the confirmation checkbox."]

/-- `pkgbase_delete_post`. -/
def pkgbaseDeletePost (cfg : Config) (db : Db) (user : User) (name : String) (confirm : Bool)
    (comments next : String) (now : Nat) : Response × Db :=
  getPkgOrBase cfg db name fun pkgbase =>
    if !hasCredential user .pkgbaseDelete [] then (.redirect s!"/pkgbase/{name}", db)
    else if !confirm then (.render 400 deletionNotConfirmed, db)
    else
      raiseHttp db (optionalComment cfg comments) <|
        let commented := updateClosureComment cfg db pkgbase .deletion comments none
        (pkgbaseDeleteInstance cfg commented user pkgbase comments now).response (.redirect next)

/-- `pkgbase_merge_post`. -/
def pkgbaseMergePost (cfg : Config) (db : Db) (user : User) (name into comments : String)
    (confirm : Bool) (next : String) (now : Nat) : Response × Db :=
  getPkgOrBase cfg db name fun pkgbase =>
    if !hasCredential user .pkgbaseMerge [] then
      (.render 401 ["Only Package Maintainers and Developers can merge packages."], db)
    else if !confirm then (.render 400 deletionNotConfirmed, db)
    else
      match baseNamed cfg db into with
      | none => (.render 400 ["Cannot find package to merge votes and comments into."], db)
      | some target =>
          if pkgbase.id = target.id then
            (.render 400 ["Cannot merge a package base with itself."], db)
          else
            raiseHttp db (optionalComment cfg comments) <|
              let commented := updateClosureComment cfg db pkgbase .merge comments (some target)
              (pkgbaseMergeInstance cfg commented user pkgbase target comments now).response
                (nextOr next s!"/pkgbase/{target.name}")

/-! ### `aurweb/routers/packages.py` -/

/-- The packages that were selected. -/
def selectedPackages (db : Db) (ids : List Nat) : List Package :=
  ids.dedup.filterMap fun id => db.packages.find? (·.id == id)

/-- `bases`. -/
def selectedBases (db : Db) (ids : List Nat) : List PackageBase :=
  ((selectedPackages db ids).filterMap fun pkg => db.packageBase? pkg.packageBaseID).dedup

/-- One instance after the other, until one raises. -/
def forEachBase (action : Db → PackageBase → Outcome) : List PackageBase → Db → Outcome
  | [], db => done db
  | pkgbase :: bases, db => (action db pkgbase).andThen (forEachBase action bases)

/-- `(False, messages)`. -/
def refused (db : Db) (message : String) : Response × Db := (.render 400 [message], db)

/-- `packages_unflag`. -/
def packagesUnflag (db : Db) (user : User) (ids : List Nat) : Response × Db :=
  let bases := selectedBases db ids
  if ids.isEmpty ∨ ∃ b ∈ bases, hasCredential user .pkgbaseUnflag [b.flaggerUID] = false then
    refused db "You did not select any packages to unflag."
  else
    (.render 200 ["The selected packages have been unflagged."],
      bases.foldl (fun db b => pkgbaseUnflagInstance db user b) db)

/-- `packages_notify`. -/
def packagesNotify (db : Db) (user : User) (ids : List Nat) : Response × Db :=
  let bases := selectedBases db ids
  if ids.isEmpty ∨ ∃ b ∈ bases,
      hasCredential user .pkgbaseNotify [] = false ∨ notified db b.id user.id = true then
    refused db "You did not select any packages to be notified about."
  else
    (.render 200 ["The selected packages' notifications have been enabled."],
      bases.foldl (fun db b => pkgbaseNotifyInstance db user b) db)

/-- `packages_unnotify`. -/
def packagesUnnotify (db : Db) (user : User) (ids : List Nat) : Response × Db :=
  let bases := selectedBases db ids
  if ids.isEmpty then refused db "You did not select any packages for notification removal."
  else if ∃ b ∈ bases, notified db b.id user.id = false then
    refused db "A package you selected does not have notifications enabled."
  else
    (.render 200 ["The selected packages' notifications have been removed."],
      bases.foldl (fun db b => pkgbaseUnnotifyInstance db user b) db)

/-- `packages_adopt`. -/
def packagesAdopt (cfg : Config) (db : Db) (user : User) (ids : List Nat) (confirm : Bool)
    (now : Nat) : Response × Db :=
  let bases := selectedBases db ids
  let hasCred := hasCredential user .pkgbaseAdopt []
  if ids.isEmpty then refused db "You did not select any packages to adopt."
  else if !confirm then
    refused db ("The selected packages have not been adopted, " ++
      "check the confirmation checkbox.")
  else if hasCred = false ∧ ∃ b ∈ bases, b.maintainerUID ≠ none then
    refused db "You are not allowed to adopt one of the packages you selected."
  else
    (forEachBase (fun db b => pkgbaseAdoptInstance cfg db user b none now) bases db).response
      (.render 200 [if hasCred then "The selected packages have been adopted."
        else "Adoption requests have been filed for the selected packages."])

/-- `disown_all`: the errors it collects are not raised. -/
def disownAll (cfg : Config) (user : User) (now : Nat) :
    List PackageBase → Db → Except Raised (List String) × Db
  | [], db => (.ok [], db)
  | pkgbase :: bases, db =>
      match pkgbaseDisownInstance cfg db user pkgbase now with
      | (.ok (), db) => disownAll cfg user now bases db
      | (.error (.invariant message), db) =>
          let rest := disownAll cfg user now bases db
          (rest.1.map (message :: ·), rest.2)
      | (.error e, db) => (.error e, db)

/-- `packages_disown`. -/
def packagesDisown (cfg : Config) (db : Db) (user : User) (ids : List Nat) (confirm : Bool)
    (now : Nat) : Response × Db :=
  let bases := selectedBases db ids
  if ids.isEmpty then refused db "You did not select any packages to disown."
  else if !confirm then
    refused db ("The selected packages have not been disowned, " ++
      "check the confirmation checkbox.")
  else if ∃ b ∈ bases, hasCredential user .pkgbaseDisown [b.maintainerUID] = false then
    refused db "You are not allowed to disown one of the packages you selected."
  else
    match disownAll cfg user now bases db with
    | (.ok [], db) => (.render 200 ["The selected packages have been disowned."], db)
    | (.ok errors, db) => (.render 400 errors, db)
    | (.error e, db) => Outcome.response (.error e, db) (.render 200 [])

/-- `packages_delete`. -/
def packagesDelete (cfg : Config) (db : Db) (user : User) (ids : List Nat) (confirm : Bool)
    (now : Nat) : Response × Db :=
  if ids.isEmpty then refused db "You did not select any packages to delete."
  else if !confirm then (.render 400 deletionNotConfirmed, db)
  else if !hasCredential user .pkgbaseDelete [] then
    refused db "You do not have permission to delete packages."
  else if (selectedPackages db ids).length ≠ ids.dedup.length then
    refused db "One of the packages you selected does not exist."
  else
    (forEachBase (fun db b => pkgbaseDeleteInstance cfg db user b "" now)
      (selectedBases db ids) db).response
      (.render 200 ["The selected packages have been deleted."])

/-- `PACKAGE_ACTIONS`. -/
def packagesPost (cfg : Config) (db : Db) (user : User) (ids : List Nat) (action : String)
    (confirm : Bool) (now : Nat) : Response × Db :=
  match action with
  | "unflag" => packagesUnflag db user ids
  | "notify" => packagesNotify db user ids
  | "unnotify" => packagesUnnotify db user ids
  | "adopt" => packagesAdopt cfg db user ids confirm now
  | "disown" => packagesDisown cfg db user ids confirm now
  | "delete" => packagesDelete cfg db user ids confirm now
  | _ => (.render 400 [], db)

/-! ### `account_delete_post` -/

/-- The checks of the route: whose account goes, or what the visitor is told. -/
def accountDeleteCheck (cfg : Config) (db : Db) (user : User) (name : String)
    (confirm validPassword : Bool) : Except Response User :=
  match userNamed cfg db name with
  | none => .error (.httpException 404 "Not Found")
  | some target =>
      if !hasCredential user .accountEdit [some target.id] then
        .error (.httpException 401 "You do not have permission to edit this account.")
      else if !confirm then
        .error (.render 400 ["The account has not been deleted, check the confirmation checkbox."])
      else if !validPassword then .error (.render 400 ["Invalid password."])
      -- The session clears the columns it knows before it deletes the row; these three
      -- cannot be NULL.
      else if db.votes.any (·.userID == target.id) then .error (.serverError "AssertionError")
      else if db.voteInfo.any (·.submitterID == target.id) ||
          db.acceptedTerms.any (·.usersID == target.id) then
        .error (.serverError "IntegrityError")
      else .ok target

/-- `db.delete(user)`: a comment the account has deleted is kept, with no deleter. -/
def deleteAccount (db : Db) (uid : Nat) : Db :=
  Db.deleteUser
    { db with
      packageComments := Table.update (·.delUsersID == some uid)
        (fun c => { c with delUsersID := none }) db.packageComments }
    uid

/-- `account_delete_post`. -/
def accountDeletePost (cfg : Config) (db : Db) (user : User) (name : String)
    (confirm validPassword : Bool) : Response × Db :=
  match accountDeleteCheck cfg db user name confirm validPassword with
  | .error r => (r, db)
  | .ok target => (.redirect "/", deleteAccount db target.id)

end Aurweb
