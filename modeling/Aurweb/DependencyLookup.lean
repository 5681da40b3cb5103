/-
What a package's page tells of the names it depends on: `lookup_dependencies` of
`packages/util.py`, with the filters and the template that go through its result.

The names of all listed dependencies are looked up together.  A query compares names by the
collation of the table, the sets and the dictionary that are made of the rows by equality.
-/
import Aurweb.Aurblup
import Aurweb.Schema

namespace Aurweb.DependencyLookup

open Aurblup (OfficialProviders Platform)

/-- A row of `combined_provider`. -/
structure Provider where
  name : String
  provides : String
  isOfficial : Bool
  deriving DecidableEq, Repr

/-- What is returned: two sets and a `defaultdict(list)`. -/
structure Lookup where
  aurPackages : List String
  officialPackages : List String := []
  dependencyProviders : String → Option (List Provider) := fun _ => none

section

variable (cfg : Config) (pf : Platform) (db : Db) (t : OfficialProviders)
  (dependencyNames : List String)

/-- `lookup_aur_packages`. -/
def lookupAurPackages : List String :=
  (db.packages.filter fun p => dependencyNames.any (cfg.sameName p.name)).map (·.name)

/-- `aur_dep_provides_query`. -/
def aurDepProvides : List Provider :=
  (db.packageRelations.filter fun rel =>
    rel.relType = .provides ∧ dependencyNames.any (cfg.sameName rel.relName) = true).flatMap
      fun rel => (db.packages.filter (·.id == rel.packageID)).map fun p =>
        { name := p.name, provides := rel.relName, isOfficial := false }

/-- `official_dep_provides_query`. -/
def officialDepProvides : List Provider :=
  (t.rows.filter fun r => dependencyNames.any fun name =>
    pf.collate r.provides == pf.collate name).map fun r =>
      { name := r.name, provides := r.provides, isOfficial := true }

/-- The loop over `combined_provider`. -/
def Lookup.add (l : Lookup) (provider : Provider) : Lookup :=
  let listed := { l with
    dependencyProviders := Dict.append l.dependencyProviders (provider.provides, provider) }
  if provider.isOfficial then
    if provider.provides = provider.name then
      { l with officialPackages := l.officialPackages ++ [provider.name] }
    else { listed with officialPackages := l.officialPackages ++ [provider.name] }
  else listed

/-- `lookup_dependencies`; the rows of a `UNION ALL` are in the order in which the database
returns them. -/
def lookupDependencies (returned : List Provider → List Provider) : Lookup :=
  let combinedProvider := returned
    (aurDepProvides cfg db dependencyNames ++ officialDepProvides pf t dependencyNames)
  combinedProvider.foldl Lookup.add { aurPackages := lookupAurPackages cfg db dependencyNames }

end

/-! ### The page -/

def officialBase : String := "https://archlinux.org"

/-- `pkgname_link`. -/
def pkgnameLink (pkgname : String) (aurPackages officialPackages : List String) : Option String :=
  if aurPackages.contains pkgname then some ("/packages/" ++ pkgname)
  else if officialPackages.contains pkgname then some (officialBase ++ "/packages/?q=" ++ pkgname)
  else none

/-- What the template has for a dependency. -/
structure Item where
  link : Option String
  /-- `AUR`, raised. -/
  aur : Bool
  /-- Nothing has the name. -/
  unknown : Bool
  provides : List Provider
  deriving DecidableEq, Repr

def item (l : Lookup) (depName : String) : Item :=
  let provides := (l.dependencyProviders depName).getD []
  let broken := !l.aurPackages.contains depName && !l.officialPackages.contains depName
  { link := if broken then none else pkgnameLink depName l.aurPackages l.officialPackages
    aur := !broken && l.aurPackages.contains depName
    unknown := broken && provides.isEmpty
    provides := provides }

end Aurweb.DependencyLookup
