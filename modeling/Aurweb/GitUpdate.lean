/-
The update hook: `aurweb/git/update.py`, `update_legacy.py` and `update_common.py` from
the point where a push has passed validation.

The two hooks differ in how they read a `.SRCINFO`; what they then do with the database
is the same sequence of statements and commits, up to how often the fields of a package
are gone through.  A `PackageData` is what either has made of one package: the legacy
hook goes through the fields once and finds the architectures on the way, the other
makes one pass for each architecture.
-/
import Aurweb.Schema
import Aurweb.Lib.Txn

namespace Aurweb.GitUpdate

open Txn Txn.Prog

/-! ### What is to be stored -/

/-- How the hook ends when it does not end well. -/
inductive Failure
  | die (message : String)
  | raised (exception : String)
  deriving DecidableEq, Repr

structure Source where
  source : String
  arch : Option String
  deriving DecidableEq, Repr

structure Dependency where
  name : String
  desc : String
  cond : String
  arch : Option String
  deriving DecidableEq, Repr

structure Relation where
  name : String
  cond : String
  arch : Option String
  deriving DecidableEq, Repr

/-- One pass over the fields of a package. -/
structure Pass where
  sources : List Source
  depends : DependencyType → List Dependency
  relations : RelationType → List Relation

structure PackageData where
  name : String
  /-- Putting a version together may raise. -/
  version : Except Failure String
  description : Option String
  url : Option String
  passes : List Pass
  licenses : List String
  groups : List String

/-- `("depends", "makedepends", "checkdepends", "optdepends")`. -/
def depTypes : List DependencyType := [.depends, .makedepends, .checkdepends, .optdepends]

/-- `("conflicts", "provides", "replaces")`. -/
def relTypes : List RelationType := [.conflicts, .provides, .replaces]

abbrev Hook := Prog Db Failure

/-! ### Statements -/

/-- `SELECT ID, MaintainerUID FROM PackageBases WHERE Name = ?`. -/
def baseByName (cfg : Config) (name : String) (db : Db) : Option PackageBase :=
  db.packageBases.find? fun b => cfg.sameName b.name name

/-- `SELECT ID FROM Users WHERE Username = ?`. -/
def userByName (cfg : Config) (name : String) (db : Db) : Option User :=
  db.users.find? fun u => cfg.sameName u.username name

/-- The package is one of the base's: the `EXISTS` of the deletes. -/
def ownedBy (db : Db) (baseID pkgID : Nat) : Bool :=
  db.packages.any fun p => p.packageBaseID == baseID && p.id == pkgID

/-- An insert that a unique index may refuse. -/
def insertUnique {α : Type} (taken : Db → Bool) (insert : Db → α × Db) : Hook α :=
  constrained taken (.raised "IntegrityError") insert

/-- `PackageBases.Name` is unique. -/
def insertPackageBase (cfg : Config) (name : String) (uid now : Nat) : Hook Nat :=
  insertUnique (fun db => db.packageBases.any fun b => cfg.sameName b.name name) fun db =>
    (db.nextID,
      { db with
        packageBases := db.packageBases ++ [
          { id := db.nextID, name, numVotes := 0, outOfDateTS := none, flaggerComment := ""
            submittedTS := now, modifiedTS := now, flaggerUID := none
            submitterUID := some uid, maintainerUID := some uid, packagerUID := none }]
        nextID := db.nextID + 1 })

def hasNotification (db : Db) (baseID uid : Nat) : Bool :=
  db.packageNotifications.any fun n => n.packageBaseID == baseID && n.userID == uid

/-- The pair is a unique index. -/
def insertNotification (baseID uid : Nat) : Hook Unit :=
  insertUnique (fun db => hasNotification db baseID uid) fun db =>
    ((), { db with
        packageNotifications :=
          db.packageNotifications ++ [{ packageBaseID := baseID, userID := uid }] })

/-- `Packages.Name` is unique. -/
def insertPackage (cfg : Config) (baseID : Nat) (d : PackageData) (version : String) : Hook Nat :=
  insertUnique (fun db => db.packages.any fun p => cfg.sameName p.name d.name) fun db =>
    (db.nextID,
      { db with
        packages := db.packages ++ [
          { id := db.nextID, packageBaseID := baseID, name := d.name, version
            description := d.description, url := d.url }]
        nextID := db.nextID + 1 })

def insertSource (pkgID : Nat) (s : Source) : Hook Unit :=
  write fun db =>
    { db with
      packageSources :=
        db.packageSources ++ [{ packageID := pkgID, source := s.source, sourceArch := s.arch }] }

def insertDependency (pkgID : Nat) (t : DependencyType) (d : Dependency) : Hook Unit :=
  write fun db =>
    { db with
      packageDepends := db.packageDepends ++ [
        { packageID := pkgID, depType := t, depName := d.name, depDesc := d.desc
          depCondition := d.cond, depArch := d.arch }] }

def insertRelation (pkgID : Nat) (t : RelationType) (r : Relation) : Hook Unit :=
  write fun db =>
    { db with
      packageRelations := db.packageRelations ++ [
        { packageID := pkgID, relType := t, relName := r.name, relCondition := r.cond
          relArch := r.arch }] }

/-- `SELECT ID FROM Licenses WHERE Name = ?`. -/
def licenseID? (cfg : Config) (name : String) (db : Db) : Option Nat :=
  (db.licenses.find? fun l => cfg.sameName l.name name).map (·.id)

/-- `Licenses.Name` is unique. -/
def insertLicense (cfg : Config) (name : String) : Hook Nat :=
  insertUnique (fun db => db.licenses.any fun l => cfg.sameName l.name name) fun db =>
    (db.nextID,
      { db with licenses := db.licenses ++ [{ id := db.nextID, name }], nextID := db.nextID + 1 })

/-- The pair is the primary key. -/
def insertPackageLicense (pkgID licenseID : Nat) : Hook Unit :=
  insertUnique
    (fun db => db.packageLicenses.any fun r => r.packageID == pkgID && r.licenseID == licenseID)
    fun db =>
      ((), { db with
          packageLicenses := db.packageLicenses ++ [{ packageID := pkgID, licenseID }] })

/-- ``SELECT ID FROM `Groups` WHERE Name = ?``. -/
def groupID? (cfg : Config) (name : String) (db : Db) : Option Nat :=
  (db.groups.find? fun g => cfg.sameName g.name name).map (·.id)

/-- `Groups.Name` is unique. -/
def insertGroup (cfg : Config) (name : String) : Hook Nat :=
  insertUnique (fun db => db.groups.any fun g => cfg.sameName g.name name) fun db =>
    (db.nextID,
      { db with groups := db.groups ++ [{ id := db.nextID, name }], nextID := db.nextID + 1 })

/-- The pair is the primary key. -/
def insertPackageGroup (pkgID groupID : Nat) : Hook Unit :=
  insertUnique
    (fun db => db.packageGroups.any fun r => r.packageID == pkgID && r.groupID == groupID)
    fun db =>
      ((), { db with packageGroups := db.packageGroups ++ [{ packageID := pkgID, groupID }] })

/-! ### `save_metadata` -/

/-- The loops over sources, dependencies and relations. -/
def storePass (pkgID : Nat) (p : Pass) : Hook Unit := do
  forEach p.sources (insertSource pkgID)
  forEach depTypes fun t => do
    -- SELECT ID FROM DependencyTypes
    external
    forEach (p.depends t) (insertDependency pkgID t)
  forEach relTypes fun t => do
    external
    forEach (p.relations t) (insertRelation pkgID t)

/-- A name is looked up, and added (and committed) when it is new; then it is linked to. -/
def storeNamed (lookup : Db → Option Nat) (insertName : Hook Nat) (insertLink : Nat → Hook Unit) :
    Hook Unit := do
  let row ← query lookup
  match row with
  | some id => insertLink id
  | none => do
      let id ← insertName
      commit
      insertLink id

def storeLicense (cfg : Config) (pkgID : Nat) (name : String) : Hook Unit :=
  storeNamed (licenseID? cfg name) (insertLicense cfg name) (insertPackageLicense pkgID)

def storeGroup (cfg : Config) (pkgID : Nat) (name : String) : Hook Unit :=
  storeNamed (groupID? cfg name) (insertGroup cfg name) (insertPackageGroup pkgID)

/-- The rows that hang off a package. -/
def storeFields (cfg : Config) (d : PackageData) (pkgID : Nat) : Hook Unit := do
  forEach d.passes (storePass pkgID)
  forEach d.licenses (storeLicense cfg pkgID)
  forEach d.groups (storeGroup cfg pkgID)

/-- One iteration of the loop over the packages. -/
def storePackage (cfg : Config) (baseID : Nat) (d : PackageData) : Hook Unit := do
  let version ← ofExcept d.version
  let pkgID ← insertPackage cfg baseID d version
  commit
  storeFields cfg d pkgID

/-- `ModifiedTS`, `PackagerUID` and `OutOfDateTS`. -/
def touchBase (baseID uid now : Nat) (db : Db) : Db :=
  db.updatePackageBase baseID fun b =>
    { b with modifiedTS := now, packagerUID := some uid, outOfDateTS := none }

/-- `SET MaintainerUID = ? WHERE ID = ? AND MaintainerUID IS NULL`. -/
def takeOver (baseID uid : Nat) (db : Db) : Db :=
  db.updatePackageBase baseID fun b =>
    if b.maintainerUID = none then { b with maintainerUID := some uid } else b

/-! `DELETE FROM Package… WHERE EXISTS (…)`, for each of the five tables. -/

def deleteSources (baseID : Nat) (db : Db) : Db :=
  { db with
    packageSources := Table.delete (fun r => ownedBy db baseID r.packageID) db.packageSources }

def deleteDepends (baseID : Nat) (db : Db) : Db :=
  { db with
    packageDepends := Table.delete (fun r => ownedBy db baseID r.packageID) db.packageDepends }

def deleteRelations (baseID : Nat) (db : Db) : Db :=
  { db with
    packageRelations := Table.delete (fun r => ownedBy db baseID r.packageID) db.packageRelations }

def deleteLicenses (baseID : Nat) (db : Db) : Db :=
  { db with
    packageLicenses := Table.delete (fun r => ownedBy db baseID r.packageID) db.packageLicenses }

def deleteGroups (baseID : Nat) (db : Db) : Db :=
  { db with
    packageGroups := Table.delete (fun r => ownedBy db baseID r.packageID) db.packageGroups }

/-- The deletes of the old packages: five tables of rows, then the packages. -/
def clearPackages (baseID : Nat) : Hook Unit := do
  write (deleteSources baseID)
  write (deleteDepends baseID)
  write (deleteRelations baseID)
  write (deleteLicenses baseID)
  write (deleteGroups baseID)
  write fun db => db.deletePackages (·.packageBaseID == baseID)

/-- The notification of whoever took an orphan over, and the final commit. -/
def finish (baseID uid : Nat) (wasOrphan : Bool) : Hook Unit := do
  when wasOrphan do
    let listed ← query fun db => hasNotification db baseID uid
    when (!listed) (insertNotification baseID uid)
  commit

/-- `save_metadata`; a row that is not there makes `fetchone()` return `None`. -/
def saveMetadata (cfg : Config) (pkgbase user : String) (packages : List PackageData)
    (now : Nat) : Hook Unit := do
  let row ← query (baseByName cfg pkgbase)
  match row with
  | none => raise (.raised "TypeError")
  | some base => do
      let packager ← query (userByName cfg user)
      match packager with
      | none => raise (.raised "TypeError")
      | some u => do
          write (touchBase base.id u.id now)
          write (takeOver base.id u.id)
          clearPackages base.id
          forEach packages (storePackage cfg base.id)
          finish base.id u.id base.maintainerUID.isNone

/-! ### `main` -/

/-- `create_pkgbase`. -/
def createPkgbase (cfg : Config) (pkgbase user : String) (now : Nat) : Hook Unit := do
  let submitter ← query (userByName cfg user)
  match submitter with
  | none => raise (.raised "TypeError")
  | some u => do
      let baseID ← insertPackageBase cfg pkgbase u.id now
      insertNotification baseID u.id
      commit

/-- A push that has passed validation. -/
structure Push where
  pkgbase : String
  /-- `AUR_USER`. -/
  user : String
  /-- `AUR_PRIVILEGED`. -/
  privileged : Bool
  packages : List PackageData
  now : Nat

/-- `warn if privileged else die`. -/
def warnOrDie (privileged : Bool) (message : String) : Hook Unit :=
  if privileged then pure () else raise (.die message)

/-- `dict(cur.fetchall())[name]`. -/
def provider? (providers : List OfficialProvider) (name : String) : Option String :=
  (providers.reverse.find? (·.name == name)).map (·.repo)

/-- The package is in an official repository. -/
def checkProvider (privileged : Bool) (providers : List OfficialProvider) (name : String) :
    Hook Unit :=
  match provider? providers name with
  | some repo => warnOrDie privileged s!"package already provided by [{repo}]: {name}"
  | none => pure ()

/-- Another base owns a package of that name. -/
def overwrites (cfg : Config) (db : Db) (baseID : Option Nat) (name : String) : Bool :=
  db.packages.any fun p => cfg.sameName p.name name && some p.packageBaseID != baseID

/-- The checks on one package of the push. -/
def checkPackage (cfg : Config) (privileged : Bool) (blacklist : List String)
    (providers : List OfficialProvider) (baseID : Option Nat) (d : PackageData) : Hook Unit := do
  when (blacklist.contains d.name) (warnOrDie privileged s!"package is blacklisted: {d.name}")
  checkProvider privileged providers d.name
  let taken ← query fun db => overwrites cfg db baseID d.name
  when taken (raise (.die s!"cannot overwrite package: {d.name}"))

/-- `update_notify`. -/
def updateNotify (cfg : Config) (user : String) : Hook Unit := do
  let row ← query (userByName cfg user)
  match row with
  | none => raise (.raised "TypeError")
  | some _ => external

/-- What follows `save_metadata`: two references, and the notification script. -/
def publish (cfg : Config) (user : String) : Hook Unit := do
  external
  external
  updateNotify cfg user

/-- `main`, from the look-up of the package base on. -/
def main (cfg : Config) (push : Push) : Hook Unit := do
  let row ← query (baseByName cfg push.pkgbase)
  let blacklist ← query (·.packageBlacklist)
  when (blacklist.contains push.pkgbase)
    (warnOrDie push.privileged s!"pkgbase is blacklisted: {push.pkgbase}")
  let providers ← query (·.officialProviders)
  forEach push.packages
    (checkPackage cfg push.privileged blacklist providers (row.map (·.id)))
  when row.isNone (createPkgbase cfg push.pkgbase push.user push.now)
  saveMetadata cfg push.pkgbase push.user push.packages push.now
  publish cfg push.user

end Aurweb.GitUpdate
