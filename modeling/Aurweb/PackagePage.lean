/-
The page of a package: what `package` of `routers/packages.py` lists, and where the entries of
`package_metadata.html` lead.

The rows of each query are those that the database returns for it, in its order.
-/
import Aurweb.DependencyListing
import Aurweb.DependencyLookup

namespace Aurweb.PackagePage

open Aurblup (OfficialProviders Platform)
open DependencyListing (Requirement)
open DependencyLookup (Item Provider)

/-- `max_listing`. -/
def maxListing : Nat := 20

/-- `provides`: the relations of the package that are of this type. -/
def provides (db : Db) (pkg : Package) : List PackageRelation :=
  db.packageRelations.filter fun rel => rel.packageID = pkg.id ∧ rel.relType = .provides

/-- The query behind what requires the package. -/
def requirements (d : Search.Dbms) (db : Db) (pkg : Package) : List Requirement :=
  DependencyListing.pkgRequired d db pkg.name ((provides db pkg).map (·.relName))

structure Page where
  dependencies : List (PackageDependency × Item)
  dependenciesCount : Nat
  requiredBy : List Requirement
  requiredByCount : Nat

/-- `package`; the names are looked up of the dependencies that are listed. -/
def package (cfg : Config) (pf : Platform) (db : Db) (t : OfficialProviders)
    (deps : List PackageDependency) (reqs : List Requirement)
    (returned : List Provider → List Provider) (allDeps allReqs : Bool) : Page :=
  let (dependencies, dependenciesCount) :=
    DependencyListing.queryPackageDependencies deps allDeps maxListing
  let (requiredBy, requiredByCount) :=
    DependencyListing.queryRequiredByPackageDependencies reqs allReqs maxListing
  let dependencyNames := dependencies.map (·.depName)
  let lookup := DependencyLookup.lookupDependencies cfg pf db t dependencyNames returned
  { dependencies := dependencies.map fun dep => (dep, DependencyLookup.item lookup dep.depName)
    dependenciesCount, requiredBy, requiredByCount }

/-- `package_link`. -/
def packageLink (isOfficial : Bool) (name : String) : String :=
  if isOfficial then DependencyLookup.officialBase ++ "/packages/?q=" ++ name
  else "/packages/" ++ name

/-- Where the entry of a dependency leads: its own link, and `provides_markup`. -/
def links (entry : PackageDependency × Item) : List String :=
  entry.2.link.toList ++ entry.2.provides.map fun x => packageLink x.isOfficial x.name

end Aurweb.PackagePage
