/-
The dependencies of a package and the packages that require it, of `packages/util.py`.

Both listings are of instances of `PackageDependency`, whose primary key for the mapper is the
package, the type and the name: `Query.all()` returns an instance once, however many rows there
are of it, while a limit and `Query.count()` are about the rows.
-/
import Aurweb.Lib.Paging
import Aurweb.Search

namespace Aurweb.DependencyListing

open Search (Dbms Collation)

/-- The `ID` of a dependency type. -/
def typeID : DependencyType → Nat
  | .depends => 1
  | .makedepends => 2
  | .checkdepends => 3
  | .optdepends => 4

/-- The primary key of the mapper. -/
def identity (dep : PackageDependency) : Nat × DependencyType × String :=
  (dep.packageID, dep.depType, dep.depName)

section

variable {ρ : Type} (instanceOf : ρ → Nat × DependencyType × String)

/-- `Query.all()`. -/
def all (rows : List ρ) : List ρ := Query.groupBy instanceOf rows

/-- What `query_package_dependencies` and `query_required_by_package_dependencies` do with the
rows of their query, in the order in which the database returns them. -/
def listing (rows : List ρ) (fetchAll : Bool) (maxListing : Nat) : List ρ × Nat :=
  if fetchAll then
    let found := all instanceOf rows
    (found, found.length)
  else
    let found := all instanceOf (rows.take maxListing)
    let totalCount := found.length
    (found, if totalCount ≥ maxListing then rows.length else totalCount)

end

/-- `pkg.package_dependencies`. -/
def packageDependencies (db : Db) (pkg : Package) : List PackageDependency :=
  db.packageDepends.filter (·.packageID == pkg.id)

/-- `ORDER BY DepTypeID, DepName`. -/
def byTypeAndName {cfg : Config} (c : Collation cfg) :
    PackageDependency → PackageDependency → Ordering :=
  compareLex (compareOn fun dep => typeID dep.depType) fun a b => c.compare a.depName b.depName

def queryPackageDependencies (rows : List PackageDependency) (allDeps : Bool) (maxListing : Nat) :
    List PackageDependency × Nat := listing identity rows allDeps maxListing

/-- A dependency, and the package that has it. -/
structure Requirement where
  dependency : PackageDependency
  package : Package
  deriving DecidableEq, Repr

/-- `pkg_required`, of the name and of what the package provides. -/
def pkgRequired (d : Dbms) (db : Db) (pkgname : String) (provides : List String) :
    List Requirement :=
  let targets := pkgname :: provides
  (db.packageDepends.flatMap fun dep =>
    (db.packages.filter (·.id == dep.packageID)).map fun p => ⟨dep, p⟩).filter fun r =>
      targets.any (d.cfg.sameName r.dependency.depName)

/-- `ORDER BY Package.Name, DepTypeID`. -/
def byNameAndType {cfg : Config} (c : Collation cfg) : Requirement → Requirement → Ordering :=
  compareLex (fun a b => c.compare a.package.name b.package.name)
    (compareOn fun r => typeID r.dependency.depType)

def queryRequiredByPackageDependencies (rows : List Requirement) (allReqs : Bool)
    (maxListing : Nat) : List Requirement × Nat :=
  listing (fun r => identity r.dependency) rows allReqs maxListing

end Aurweb.DependencyListing
