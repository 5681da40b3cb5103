/-
The records of `type=info`, of `aurweb/rpc.py`.

A record is what the JSON object has under a key.  `Popularity` is a parameter, and so is the
order in which the database returns the rows of a union.
-/
import Aurweb.Lib.Dict
import Aurweb.Rpc

namespace Aurweb.Rpc

/-- A value of a record. -/
inductive Value
  | null
  | int (n : Nat)
  | float (digits : String)
  | str (s : String)
  | list (items : List String)
  deriving DecidableEq, Repr

/-- A JSON object. -/
abbrev Data := String → Option Value

def Value.ofStr : Option String → Value
  | none => .null
  | some s => .str s

def Value.ofInt : Option Nat → Value
  | none => .null
  | some n => .int n

/-! ### Subqueries -/

/-- `DependencyTypes.Name`. -/
def dependencyTypeName : DependencyType → String
  | .depends => "depends"
  | .makedepends => "makedepends"
  | .checkdepends => "checkdepends"
  | .optdepends => "optdepends"

/-- `RelationTypes.Name`. -/
def relationTypeName : RelationType → String
  | .conflicts => "conflicts"
  | .provides => "provides"
  | .replaces => "replaces"

/-- A row of a subquery. -/
structure Extra where
  id : Nat
  type : String
  name : String
  cond : String
  deriving DecidableEq, Repr

namespace Extra

variable (db : Db)

/-! The joins of the subqueries, with the columns that are selected. -/

def dependencies : List Extra :=
  db.packageDepends.map fun dep =>
    ⟨dep.packageID, dependencyTypeName dep.depType, dep.depName, dep.depCondition⟩

def relations : List Extra :=
  db.packageRelations.map fun rel =>
    ⟨rel.packageID, relationTypeName rel.relType, rel.relName, rel.relCondition⟩

def groups : List Extra :=
  db.packageGroups.flatMap fun pg =>
    (db.groups.filter (·.id == pg.groupID)).map fun g => ⟨pg.packageID, "Groups", g.name, ""⟩

def licenses : List Extra :=
  db.packageLicenses.flatMap fun pl =>
    (db.licenses.filter (·.id == pl.licenseID)).map fun l => ⟨pl.packageID, "License", l.name, ""⟩

def keywords : List Extra :=
  db.packageKeywords.flatMap fun k =>
    (db.packages.filter (·.packageBaseID == k.packageBaseID)).map fun p =>
      ⟨p.id, "Keywords", k.keyword, ""⟩

def comaintainers : List Extra :=
  db.packageComaintainers.flatMap fun c =>
    (db.users.filter (·.id == c.usersID)).flatMap fun u =>
      (db.packages.filter (·.packageBaseID == c.packageBaseID)).map fun p =>
        ⟨p.id, "CoMaintainers", u.username, ""⟩

/-- What `DISTINCT` compares. -/
def columns (cfg : Config) (r : Extra) : Nat × String × String × String :=
  (r.id, r.type, cfg.collate r.name, cfg.collate r.cond)

/-- `DISTINCT`. -/
def distinct (cfg : Config) (rows : List Extra) : List Extra := Query.groupBy (columns cfg) rows

end Extra

/-- `TYPE_MAPPING.get(type, type)`. -/
def typeMapping : String → String
  | "depends" => "Depends"
  | "makedepends" => "MakeDepends"
  | "checkdepends" => "CheckDepends"
  | "optdepends" => "OptDepends"
  | "conflicts" => "Conflicts"
  | "provides" => "Provides"
  | "replaces" => "Replaces"
  | type => type

/-- The union of the subqueries of `subquery`. -/
def subqueries (cfg : Config) (db : Db) (ids : List Nat) : List Extra :=
  Extra.distinct cfg ((Extra.dependencies db).filter (ids.contains ·.id)) ++
    Extra.distinct cfg ((Extra.relations db).filter (ids.contains ·.id)) ++
    Extra.distinct cfg ((Extra.groups db).filter (ids.contains ·.id)) ++
    Extra.distinct cfg ((Extra.licenses db).filter (ids.contains ·.id)) ++
    Extra.distinct cfg ((Extra.keywords db).filter (ids.contains ·.id)) ++
    Extra.distinct cfg (Extra.comaintainers db)

/-- The lists of `extra_info`, by the `ID` of a package and the key. -/
def extraLists (rows : List Extra) : Nat × String → Option (List String) :=
  Dict.collect <| rows.map fun record =>
    ((record.id, typeMapping record.type),
      if record.cond ≠ "" then record.name ++ record.cond else record.name)

/-- `Count` of `open_requests`, for a package. -/
def openRequests (db : Db) (id : Nat) : Nat :=
  ((db.packageRequests.filter fun r => r.status = .pending ∧ r.closedTS = none).flatMap fun r =>
    db.packages.filter fun p => some p.packageBaseID == r.packageBaseID && p.id == id).length

/-- `extra_info`, of the rows of the union. -/
def extraInfo (db : Db) (ids : List Nat) (rows : List Extra) (id : Nat) : Data := fun key =>
  if key = "PendingRequests" ∧ id ∈ ids ∧ openRequests db id ≠ 0 then
    some (.int (openRequests db id))
  else (extraLists rows (id, key)).map .list

/-! ### Records -/

/-- The dictionary that `get_json_data` returns. -/
def PackageData.toData (popularity : Value) (data : PackageData) : Data :=
  Dict.update
    (Dict.ofList [
      ("ID", .int data.id),
      ("Name", .str data.name),
      ("PackageBaseID", .int data.packageBaseID),
      ("PackageBase", .str data.packageBase),
      ("Maintainer", .ofStr data.maintainer),
      ("Version", .str data.version),
      ("Description", .ofStr data.description),
      ("URL", .ofStr data.url),
      ("URLPath", .str data.urlPath),
      ("NumVotes", .int data.numVotes),
      ("Popularity", popularity),
      ("OutOfDate", .ofInt data.outOfDate),
      ("FirstSubmitted", .int data.firstSubmitted),
      ("LastModified", .int data.lastModified)])
    (Dict.ofList ((data.submitter.map fun submitter => ("Submitter", .ofStr submitter)).toList))

/-- `get_info_json_data`. -/
def getInfoJsonData (api : Api) (popularity : Entity → Value) (extra : Nat → Data)
    (package : Entity) : Data :=
  let data := (getJsonData api package).toData (popularity package)
  let data := Dict.update data
    (Dict.ofList [("License", .list []), ("Keywords", .list []), ("PendingRequests", .int 0)])
  Dict.update data (extra package.id)

/-- `_handle_multiinfo_type`. -/
def handleMultiinfoType (api : Api) (popularity : Entity → Value)
    (returned : List Extra → List Extra) (db : Db) (args : List String) :
    Except Raised (List Data) :=
  if args = [] then .error (.rpcError "No request type/data specified.")
  else
    let packages := (Search.RPCSearch.init db).filter fun r =>
      args.any (api.dbms.cfg.sameName r.package.name)
    let packages := (entities db packages.query).take (api.maxRpcResults + 1)
    if packages.length > api.maxRpcResults then .error (.rpcError "Too many package results.")
    else
      let ids := packages.map (·.id)
      let rows := returned (subqueries api.dbms.cfg db ids)
      .ok (packages.map (getInfoJsonData api popularity (extraInfo db ids rows)))

end Aurweb.Rpc
