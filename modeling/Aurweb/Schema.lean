/-
The database: `aurweb/schema.py` with the constants of `aurweb/models`.

A table is a list of rows and a row has the columns some modelled function reads or
writes.  Primary keys that MySQL hands out by `AUTO_INCREMENT` all come from one
counter, `nextID`: ids are only ever compared, so sharing the counter between the
tables changes nothing but their values.  Foreign keys act when a row they point to
goes away; what they do then is `deleteUser` and `deletePackageBase` below, column by
column as the schema's `ondelete` says.
-/
import Mathlib.Data.List.Dedup
import Mathlib.Data.List.Sort
import Aurweb.Lib.Table

namespace Aurweb

/-! ### Configuration -/

/-- The order in which CPython goes through a set of ids that was built from a list: each of
them once, and the language promises no more. -/
structure SetOrder where
  run : List Nat → List Nat
  mem : ∀ {ids : List Nat} {uid : Nat}, uid ∈ run ids ↔ uid ∈ ids
  nodup : ∀ ids, (run ids).Nodup

/-- Ids that have slots of their own in the hash table come out in ascending order. -/
def SetOrder.ascending : SetOrder where
  run ids := ids.dedup.insertionSort (· ≤ ·)
  mem := by simp
  nodup ids := (List.perm_insertionSort _ _).nodup_iff.mpr (List.nodup_dedup ids)

/--
`conf/config.defaults`.  `collate` is the sort key the text columns compare by:
two names are equal to MySQL when their keys are.  `repoRegex` is what
`re.match(repo_regex, ·)` answers.  `setOrder` belongs to the interpreter.
-/
structure Config where
  collate : String → String
  repoRegex : String → Bool
  setOrder : SetOrder
  maxCharsComment : Nat
  requestIdleTime : Nat
  autoOrphanAge : Nat
  autoDeleteAge : Nat
  enableMaintenance : Bool
  maintenanceExceptions : List String
  emailVerificationTTL : Nat
  emailVerificationCooldown : Nat
  unverifiedAccountWarning : Nat
  unverifiedAccountLifetime : Nat

/-- The values `conf/config.defaults` sets. -/
def Config.defaults (collate : String → String) (repoRegex : String → Bool) : Config where
  collate := collate
  repoRegex := repoRegex
  setOrder := SetOrder.ascending
  maxCharsComment := 5000
  requestIdleTime := 1209600
  autoOrphanAge := 15552000
  autoDeleteAge := 86400
  enableMaintenance := true
  maintenanceExceptions := ["127.0.0.1"]
  emailVerificationTTL := 86400
  emailVerificationCooldown := 600
  unverifiedAccountWarning := 604800
  unverifiedAccountLifetime := 1209600

/-- Equality as the database sees it. -/
def Config.sameName (cfg : Config) (a b : String) : Bool := cfg.collate a == cfg.collate b

/-! ### Enumerations -/

/-- `AccountTypes`, with `USER_ID` to `PACKAGE_MAINTAINER_AND_DEV_ID` as the order of ids. -/
inductive AccountType
  | user
  | packageMaintainer
  | developer
  | packageMaintainerAndDev
  deriving DecidableEq, Repr, Inhabited

def AccountType.id : AccountType → Nat
  | user => 1
  | packageMaintainer => 2
  | developer => 3
  | packageMaintainerAndDev => 4

/-- `RequestTypes`. -/
inductive RequestType
  | deletion
  | orphan
  | merge
  | adoption
  deriving DecidableEq, Repr, Inhabited

/-- `RequestType.Name`. -/
def RequestType.name : RequestType → String
  | deletion => "deletion"
  | orphan => "orphan"
  | merge => "merge"
  | adoption => "adoption"

/-- `PackageRequests.Status`: `PENDING_ID`, `CLOSED_ID`, `ACCEPTED_ID`, `REJECTED_ID`. -/
inductive RequestStatus
  | pending
  | closed
  | accepted
  | rejected
  deriving DecidableEq, Repr, Inhabited

/-- `DependencyTypes`. -/
inductive DependencyType
  | depends
  | makedepends
  | checkdepends
  | optdepends
  deriving DecidableEq, Repr, Inhabited

/-- `RelationTypes`. -/
inductive RelationType
  | conflicts
  | provides
  | replaces
  deriving DecidableEq, Repr, Inhabited

/-! ### Rows -/

structure User where
  id : Nat
  accountType : AccountType
  suspended : Bool
  emailVerified : Bool
  emailVerificationToken : Option String
  emailVerificationExpiry : Option Nat
  username : String
  email : String
  backupEmail : Option String := none
  /-- `NULL` for an account that shares its address with an older one. -/
  normalizedEmail : Option String := none
  lastLogin : Nat
  lastSSHLogin : Nat
  lastSSHLoginIPAddress : Option String
  inactivityTS : Nat
  registrationTS : Nat
  deriving DecidableEq, Repr, Inhabited

structure PackageBase where
  id : Nat
  name : String
  numVotes : Nat
  outOfDateTS : Option Nat
  flaggerComment : String
  submittedTS : Nat
  modifiedTS : Nat
  flaggerUID : Option Nat
  submitterUID : Option Nat
  maintainerUID : Option Nat
  packagerUID : Option Nat
  deriving DecidableEq, Repr, Inhabited

structure PackageKeyword where
  packageBaseID : Nat
  keyword : String
  deriving DecidableEq, Repr, Inhabited

structure Package where
  id : Nat
  packageBaseID : Nat
  name : String
  version : String
  description : Option String
  url : Option String
  deriving DecidableEq, Repr, Inhabited

/-- `Licenses`; `Groups` has the same two columns. -/
structure License where
  id : Nat
  name : String
  deriving DecidableEq, Repr, Inhabited

structure Group where
  id : Nat
  name : String
  deriving DecidableEq, Repr, Inhabited

structure PackageLicense where
  packageID : Nat
  licenseID : Nat
  deriving DecidableEq, Repr, Inhabited

structure PackageGroup where
  packageID : Nat
  groupID : Nat
  deriving DecidableEq, Repr, Inhabited

structure PackageDependency where
  packageID : Nat
  depType : DependencyType
  depName : String
  depDesc : String
  depCondition : String
  depArch : Option String
  deriving DecidableEq, Repr, Inhabited

structure PackageRelation where
  packageID : Nat
  relType : RelationType
  relName : String
  relCondition : String
  relArch : Option String
  deriving DecidableEq, Repr, Inhabited

structure PackageSource where
  packageID : Nat
  source : String
  sourceArch : Option String
  deriving DecidableEq, Repr, Inhabited

structure PackageVote where
  usersID : Nat
  packageBaseID : Nat
  voteTS : Nat
  deriving DecidableEq, Repr, Inhabited

structure PackageComment where
  id : Nat
  packageBaseID : Nat
  usersID : Option Nat
  comments : String
  editedUsersID : Option Nat
  delUsersID : Option Nat
  deriving DecidableEq, Repr, Inhabited

structure PackageComaintainer where
  usersID : Nat
  packageBaseID : Nat
  priority : Nat
  deriving DecidableEq, Repr, Inhabited

structure PackageNotification where
  packageBaseID : Nat
  userID : Nat
  deriving DecidableEq, Repr, Inhabited

structure OfficialProvider where
  name : String
  repo : String
  deriving DecidableEq, Repr, Inhabited

structure PackageRequest where
  id : Nat
  reqType : RequestType
  packageBaseID : Option Nat
  packageBaseName : String
  mergeBaseName : Option String
  usersID : Option Nat
  comments : String
  closureComment : String
  requestTS : Nat
  closedTS : Option Nat
  closedUID : Option Nat
  status : RequestStatus
  deriving DecidableEq, Repr, Inhabited

/-- `VoteInfo`; `End` is `endTS`. -/
structure VoteInfo where
  id : Nat
  user : String
  endTS : Nat
  submitterID : Nat
  yes : Nat
  no : Nat
  abstain : Nat
  deriving DecidableEq, Repr, Inhabited

structure Vote where
  voteID : Nat
  userID : Nat
  deriving DecidableEq, Repr, Inhabited

structure Term where
  id : Nat
  revision : Nat
  deriving DecidableEq, Repr, Inhabited

structure AcceptedTerm where
  usersID : Nat
  termsID : Nat
  revision : Nat
  deriving DecidableEq, Repr, Inhabited

/-! ### The database -/

structure Db where
  users : List User := []
  packageBases : List PackageBase := []
  packageKeywords : List PackageKeyword := []
  packages : List Package := []
  licenses : List License := []
  packageLicenses : List PackageLicense := []
  groups : List Group := []
  packageGroups : List PackageGroup := []
  packageDepends : List PackageDependency := []
  packageRelations : List PackageRelation := []
  packageSources : List PackageSource := []
  packageVotes : List PackageVote := []
  packageComments : List PackageComment := []
  packageComaintainers : List PackageComaintainer := []
  packageNotifications : List PackageNotification := []
  packageBlacklist : List String := []
  officialProviders : List OfficialProvider := []
  packageRequests : List PackageRequest := []
  voteInfo : List VoteInfo := []
  votes : List Vote := []
  bans : List String := []
  terms : List Term := []
  acceptedTerms : List AcceptedTerm := []
  nextID : Nat := 1
  deriving DecidableEq, Repr, Inhabited

namespace Db

/-- `db.query(User).filter(User.ID == uid).first()`. -/
def user? (db : Db) (uid : Nat) : Option User := db.users.find? (·.id == uid)

def packageBase? (db : Db) (id : Nat) : Option PackageBase := db.packageBases.find? (·.id == id)

theorem user?_mem {db : Db} {uid : Nat} {u : User} (h : db.user? uid = some u) :
    u ∈ db.users ∧ u.id = uid :=
  ⟨List.mem_of_find?_eq_some h, by simpa using List.find?_some h⟩

/-- `UPDATE PackageBases SET f WHERE ID = id`. -/
def updatePackageBase (db : Db) (id : Nat) (f : PackageBase → PackageBase) : Db :=
  { db with packageBases := Table.update (·.id == id) f db.packageBases }

/-! ### Foreign keys -/

/-- A nullable column that pointed to `uid`, after `ondelete="SET NULL"`. -/
def setNull (uid : Nat) (column : Option Nat) : Option Nat :=
  if column = some uid then none else column

/-- `DELETE FROM Packages WHERE p`; everything that hangs off a package cascades. -/
def deletePackages (db : Db) (p : Package → Bool) : Db :=
  let gone := fun id => db.packages.any fun pkg => pkg.id == id && p pkg
  { db with
    packages := Table.delete p db.packages
    packageLicenses := Table.delete (fun r => gone r.packageID) db.packageLicenses
    packageGroups := Table.delete (fun r => gone r.packageID) db.packageGroups
    packageDepends := Table.delete (fun r => gone r.packageID) db.packageDepends
    packageRelations := Table.delete (fun r => gone r.packageID) db.packageRelations
    packageSources := Table.delete (fun r => gone r.packageID) db.packageSources }

/-- `DELETE FROM PackageBases WHERE ID = id`: its requests stay, with no base. -/
def deletePackageBase (db : Db) (id : Nat) : Db :=
  let db := db.deletePackages (·.packageBaseID == id)
  { db with
    packageBases := Table.delete (·.id == id) db.packageBases
    packageKeywords := Table.delete (·.packageBaseID == id) db.packageKeywords
    packageVotes := Table.delete (·.packageBaseID == id) db.packageVotes
    packageComments := Table.delete (·.packageBaseID == id) db.packageComments
    packageComaintainers := Table.delete (·.packageBaseID == id) db.packageComaintainers
    packageNotifications := Table.delete (·.packageBaseID == id) db.packageNotifications
    packageRequests := Table.update (·.packageBaseID == some id)
      (fun r => { r with packageBaseID := none }) db.packageRequests }

/--
`DELETE FROM Users WHERE ID = uid`.  A deleter's comments cascade, a submitter's
proposals cascade with every vote cast on them, and package bases are orphaned, not
deleted.
-/
def deleteUser (db : Db) (uid : Nat) : Db :=
  let gone := fun id => db.voteInfo.any fun v => v.id == id && v.submitterID == uid
  { db with
    users := Table.delete (·.id == uid) db.users
    packageBases := db.packageBases.map fun b =>
      { b with
        flaggerUID := setNull uid b.flaggerUID
        submitterUID := setNull uid b.submitterUID
        maintainerUID := setNull uid b.maintainerUID
        packagerUID := setNull uid b.packagerUID }
    packageVotes := Table.delete (·.usersID == uid) db.packageVotes
    packageComments := (Table.delete (·.delUsersID == some uid) db.packageComments).map fun c =>
      { c with
        usersID := setNull uid c.usersID
        editedUsersID := setNull uid c.editedUsersID }
    packageComaintainers := Table.delete (·.usersID == uid) db.packageComaintainers
    packageNotifications := Table.delete (·.userID == uid) db.packageNotifications
    packageRequests := db.packageRequests.map fun r =>
      { r with usersID := setNull uid r.usersID, closedUID := setNull uid r.closedUID }
    voteInfo := Table.delete (·.submitterID == uid) db.voteInfo
    votes := Table.delete (fun v => v.userID == uid || gone v.voteID) db.votes
    acceptedTerms := Table.delete (·.usersID == uid) db.acceptedTerms }

end Db

end Aurweb
