/-
The update hook that reads a `.SRCINFO` with the alpm package: `aurweb/git/update.py`.

The alpm package is not part of the repository.  Its types are those of a `.SRCINFO` that has
been accepted, and of a package the hook takes no more than what `MergedPackage` makes of it
for one architecture or another.  What the hook checks outside the `.SRCINFO` is one outcome,
`commits`, as in `GitUpdateLegacy`.
-/
import Aurweb.GitUpdateLegacy

namespace Aurweb.GitUpdateAlpm

open Txn Txn.Prog GitUpdate
open GitUpdateLegacy (Commit dieCommit isRemote)

/-! ### `alpm_types` -/

/-- The blanks and comparisons that no name and no version has in it. -/
def separators : List Char := [' ', '\n', '<', '=', '>']

def Token := { s : String // ∀ c ∈ s.toList, c ∉ separators }

inductive Architecture
  | any
  | known (name : String)
  deriving DecidableEq, Repr

/-- `is_any`. -/
def Architecture.isAny (arch : Architecture) : Bool := arch == .any

/-- `str`. -/
def Architecture.str : Architecture → String
  | any => "any"
  | known name => name

/-- The version of a package; an epoch is never zero. -/
structure FullVersion where
  epoch : Option Nat
  pkgver : String
  pkgrel : String
  epoch_pos : ∀ n ∈ epoch, 0 < n

/-- `str`. -/
def FullVersion.str (v : FullVersion) : String :=
  match v.epoch with
  | some epoch => s!"{epoch}:{v.pkgver}-{v.pkgrel}"
  | none => s!"{v.pkgver}-{v.pkgrel}"

inductive VersionComparison
  | lessOrEqual
  | greaterOrEqual
  | equal
  | less
  | greater
  deriving DecidableEq, Repr

def VersionComparison.str : VersionComparison → String
  | lessOrEqual => "<="
  | greaterOrEqual => ">="
  | equal => "="
  | less => "<"
  | greater => ">"

structure VersionRequirement where
  comparison : VersionComparison
  version : Token

/-- `str`. -/
def VersionRequirement.str (r : VersionRequirement) : String := r.comparison.str ++ r.version.val

structure PackageRelation where
  name : Token
  versionRequirement : Option VersionRequirement

structure OptionalDependency where
  name : Token
  versionRequirement : Option VersionRequirement
  description : Option String

inductive ElfArchitectureFormat
  | format32
  | format64
  deriving DecidableEq, Repr

/-- `int`. -/
def ElfArchitectureFormat.int : ElfArchitectureFormat → Nat
  | format32 => 32
  | format64 => 64

/-- The three forms of a soname, of which the first says nothing but the name. -/
inductive SonameV1
  | basic (name : Token)
  | unversioned (name soname : Token) (architecture : ElfArchitectureFormat)
  | explicit (name version : Token) (architecture : ElfArchitectureFormat)

namespace SonameV1

def name : SonameV1 → Token
  | basic name | unversioned name _ _ | explicit name _ _ => name

def version : SonameV1 → Option Token
  | explicit _ version _ => some version
  | _ => none

def soname : SonameV1 → Option Token
  | unversioned _ soname _ => some soname
  | _ => none

def architecture : SonameV1 → Option ElfArchitectureFormat
  | basic _ => none
  | unversioned _ _ architecture | explicit _ _ architecture => some architecture

end SonameV1

/-- `prefix` and `soname`. -/
structure SonameV2 where
  lookup : Token
  soname : Token

inductive RelationOrSoname
  | packageRelation (relation : PackageRelation)
  | sonameV1 (relation : SonameV1)
  | sonameV2 (relation : SonameV2)

inductive GenericRelation
  | relationOrSoname (relation : RelationOrSoname)
  | optionalDependency (relation : OptionalDependency)

/-! ### `alpm_srcinfo` -/

/-- A package for one architecture.  Sources, licenses and the URL are as `str` shows them. -/
structure MergedPackage where
  name : String
  description : Option String
  url : Option String
  licenses : List String
  groups : List String
  install : Option String
  changelog : Option String
  sources : List String
  dependencies : List RelationOrSoname
  makeDependencies : List RelationOrSoname
  checkDependencies : List RelationOrSoname
  optionalDependencies : List OptionalDependency
  conflicts : List RelationOrSoname
  provides : List RelationOrSoname
  replaces : List RelationOrSoname

/-- `metadata`: its base, and `MergedPackage` for each of its packages. -/
structure SourceInfo where
  name : String
  version : FullVersion
  architectures : List Architecture
  packages : List (Architecture → MergedPackage)

/-! ### What goes into the columns -/

/-- `sql_rel_name`. -/
def sqlRelName : GenericRelation → String
  | .relationOrSoname (.packageRelation relation) => relation.name.val
  | .optionalDependency relation => relation.name.val
  | .relationOrSoname (.sonameV1 relation) => relation.name.val
  | .relationOrSoname (.sonameV2 relation) => s!"{relation.lookup.val}:{relation.soname.val}"

/-- `sql_rel_description`. -/
def sqlRelDescription : GenericRelation → String
  | .optionalDependency relation => relation.description.getD ""
  | .relationOrSoname _ => ""

/-- `sql_rel_requirement`. -/
def sqlRelRequirement : GenericRelation → String
  | .relationOrSoname (.packageRelation relation) =>
      (relation.versionRequirement.map VersionRequirement.str).getD ""
  | .optionalDependency relation =>
      (relation.versionRequirement.map VersionRequirement.str).getD ""
  | .relationOrSoname (.sonameV1 relation) =>
      let elfArch := (relation.architecture.map fun arch => s!"-{arch.int}").getD ""
      match relation.soname, relation.version with
      | some soname, _ => s!"={soname.val}{elfArch}"
      | none, some version => s!"={version.val}{elfArch}"
      | none, none => ""
  | .relationOrSoname (.sonameV2 _) => ""

/-- `sql_architecture`. -/
def sqlArchitecture (arch : Architecture) : Option String :=
  if arch.isAny then none else some arch.str

/-- `str` of what may be `None`. -/
def strOf (value : Option String) : String := value.getD "None"

/-! ### `save_metadata` -/

/-- `dependency_groups`. -/
def MergedPackage.dependencyGroups (mergedPkg : MergedPackage) :
    DependencyType → List GenericRelation
  | .depends => mergedPkg.dependencies.map .relationOrSoname
  | .makedepends => mergedPkg.makeDependencies.map .relationOrSoname
  | .checkdepends => mergedPkg.checkDependencies.map .relationOrSoname
  | .optdepends => mergedPkg.optionalDependencies.map .optionalDependency

/-- `relation_groups`. -/
def MergedPackage.relationGroups (mergedPkg : MergedPackage) :
    RelationType → List GenericRelation
  | .conflicts => mergedPkg.conflicts.map .relationOrSoname
  | .provides => mergedPkg.provides.map .relationOrSoname
  | .replaces => mergedPkg.replaces.map .relationOrSoname

def dependency (arch : Architecture) (dep : GenericRelation) : Dependency where
  name := sqlRelName dep
  desc := sqlRelDescription dep
  cond := sqlRelRequirement dep
  arch := sqlArchitecture arch

def relation (arch : Architecture) (rel : GenericRelation) : Relation where
  name := sqlRelName rel
  cond := sqlRelRequirement rel
  arch := sqlArchitecture arch

/-- An iteration of the loop over the architectures. -/
def pass (arch : Architecture) (mergedPkg : MergedPackage) : Pass where
  sources := mergedPkg.sources.map fun source => { source, arch := sqlArchitecture arch }
  depends t := (mergedPkg.dependencyGroups t).map (dependency arch)
  relations t := (mergedPkg.relationGroups t).map (relation arch)

/-- An iteration of the loop over the packages.  The first merged package is for
`Architecture()`, which is `any`; licenses and groups are those of the last. -/
def packageData (metadata : SourceInfo) (package : Architecture → MergedPackage) : PackageData :=
  let mergedPkg := package .any
  let last := (metadata.architectures.getLast?.map package).getD mergedPkg
  { name := mergedPkg.name
    version := .ok metadata.version.str
    description := mergedPkg.description
    url := some (strOf mergedPkg.url)
    passes := metadata.architectures.map fun arch => pass arch (package arch)
    licenses := last.licenses
    groups := last.groups }

/-! ### `validate_metadata` -/

def validatePackage (commit : Commit) (architectures : List Architecture)
    (package : Architecture → MergedPackage) : Except Failure Unit := do
  let mergedPkg := package .any
  let maxLen := [("pkgname", mergedPkg.name, 255), ("pkgdesc", strOf mergedPkg.description, 255),
    ("url", strOf mergedPkg.url, 8000)]
  maxLen.forM fun (field, value, limit) =>
    if value.length > limit then dieCommit commit s!"{field} field too long: {value}"
    else pure ()
  [("install", mergedPkg.install), ("changelog", mergedPkg.changelog)].forM
    fun (field, value) =>
      match value with
      | some value =>
          if !commit.tree value then dieCommit commit s!"missing {field} file: {value}"
          else pure ()
      | none => pure ()
  architectures.forM fun arch =>
    (package arch).sources.forM fun fname =>
      if fname.length > 8000 then dieCommit commit s!"source entry too long: {fname}"
      else if isRemote fname then pure ()
      else if !commit.tree fname then dieCommit commit s!"missing source file: {fname}"
      else pure ()

def validateMetadata (commit : Commit) (metadata : SourceInfo) : Except Failure Unit :=
  metadata.packages.forM (validatePackage commit metadata.architectures)

/-! ### `main` -/

/-- What the hook is run on, once the `.SRCINFO` of the head commit has been parsed. -/
structure Push where
  metadata : SourceInfo
  head : Commit
  /-- How the checks of history and of the new commits end. -/
  commits : Except Failure Unit
  /-- `AUR_PKGBASE`, `AUR_USER` and `AUR_PRIVILEGED`. -/
  pkgbase : String
  user : String
  privileged : Bool
  now : Nat

/-- `main`, from `validate_metadata` on. -/
def main (cfg : Config) (push : Push) : Hook Unit := do
  ofExcept (validateMetadata push.head push.metadata)
  ofExcept push.commits
  when (push.metadata.name != push.pkgbase)
    (raise (.die s!"invalid pkgbase: {push.metadata.name}, expected {push.pkgbase}"))
  GitUpdate.main cfg
    { pkgbase := push.metadata.name, user := push.user, privileged := push.privileged
      packages := push.metadata.packages.map (packageData push.metadata), now := push.now }

end Aurweb.GitUpdateAlpm
