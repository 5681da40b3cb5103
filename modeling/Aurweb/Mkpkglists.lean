/-
`aurweb/scripts/mkpkglists.py`: the records of the extended metadata archive.

The packages are in whatever order the database returns them for `ORDER BY Name`; `Popularity`
is a parameter.
-/
import Aurweb.RpcInfo

namespace Aurweb.Mkpkglists

open Rpc (Data Extra Value)

/-- `TYPE_MAP.get(type, type)`. -/
def typeMap : String → String
  | "depends" => "Depends"
  | "makedepends" => "MakeDepends"
  | "checkdepends" => "CheckDepends"
  | "optdepends" => "OptDepends"
  | "conflicts" => "Conflicts"
  | "provides" => "Provides"
  | "replaces" => "Replaces"
  | type => type

/-- The union of the subqueries of `get_extended_fields`. -/
def subqueries (cfg : Config) (db : Db) : List Extra :=
  Extra.distinct cfg (Extra.dependencies db) ++
    Extra.distinct cfg (Extra.relations db) ++
    Extra.groups db ++
    Extra.licenses db ++
    Extra.keywords db ++
    Extra.distinct cfg (Extra.comaintainers db)

/-- `get_extended_dict`. -/
def getExtendedDict (query : List Extra) : Nat × String → Option (List String) :=
  Dict.collect <| query.map fun result =>
    ((result.id, typeMap result.type),
      if result.cond ≠ "" then result.name ++ result.cond else result.name)

/-- The columns of the query for the packages. -/
structure Result where
  id : Nat
  name : String
  packageBaseID : Nat
  packageBase : String
  version : String
  description : Option String
  url : Option String
  numVotes : Nat
  outOfDate : Option Nat
  maintainer : Option String
  submitter : Option String
  firstSubmitted : Nat
  lastModified : Nat
  deriving DecidableEq, Repr

/-- The query for the packages. -/
def query (db : Db) : List Result :=
  let query := Query.outer (fun r => db.users.filter fun u => some u.id == r.base.maintainerUID)
    (fun r u => { r with user := u }) (Search.PackageSearch.packages db)
  let query := Query.outer (fun r => db.users.filter fun u => some u.id == r.base.submitterUID)
    (fun r u => { r with submitter := u }) query
  query.map fun r =>
    { id := r.package.id
      name := r.package.name
      packageBaseID := r.base.id
      packageBase := r.base.name
      version := r.package.version
      description := r.package.description
      url := r.package.url
      numVotes := r.base.numVotes
      outOfDate := r.base.outOfDateTS
      maintainer := r.user.map (·.username)
      submitter := r.submitter.map (·.username)
      firstSubmitted := r.base.submittedTS
      lastModified := r.base.modifiedTS }

/-- `as_dict`. -/
def asDict (popularity : Result → Value) (package : Result) : Data :=
  Dict.ofList [
    ("ID", .int package.id),
    ("Name", .str package.name),
    ("PackageBaseID", .int package.packageBaseID),
    ("PackageBase", .str package.packageBase),
    ("Version", .str package.version),
    ("Description", .ofStr package.description),
    ("URL", .ofStr package.url),
    ("NumVotes", .int package.numVotes),
    ("Popularity", popularity package),
    ("OutOfDate", .ofInt package.outOfDate),
    ("Maintainer", .ofStr package.maintainer),
    ("Submitter", .ofStr package.submitter),
    ("FirstSubmitted", .int package.firstSubmitted),
    ("LastModified", .int package.lastModified)]

/-- The item of a package in the extended archive. -/
def item (snapshotURI : String → String) (popularity : Result → Value)
    (data : Nat × String → Option (List String)) (result : Result) : Data :=
  let item := Dict.update (asDict popularity result)
    (Dict.ofList [("URLPath", .str (snapshotURI result.name))])
  Dict.update item fun key => (data (result.id, key)).map .list

/-- `packages-meta-ext-v1.json`, of the packages and the rows of the union as they are returned. -/
def metaExt (snapshotURI : String → String) (popularity : Result → Value) (rows : List Extra)
    (results : List Result) : List Data :=
  results.map (item snapshotURI popularity (getExtendedDict rows))

end Aurweb.Mkpkglists
