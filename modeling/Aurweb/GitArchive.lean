/-
`aurweb/scripts/git_archive.py` and `aurweb/archives/spec`: the archives that are git repositories.

A run generates the files of a spec, writes them into the repository of the spec and commits what
`git status` finds.  It may end early, after any byte of the files or between the index and the
commit.  How JSON is written, the clock behind `Popularity` and the order of the rows of a union
are parameters.
-/
import Aurweb.Lib.Snapshots
import Aurweb.RpcInfo
import Mathlib.Logic.Function.Basic

namespace Aurweb.GitArchive

open Rpc (Data Entity Extra Value)
open Snapshots (Repo)

abbrev Bytes := List UInt8

/-! ### `aurweb/archives/spec` -/

/-- `--spec`. -/
inductive Spec
  | metadata
  | pkgbases
  | pkgnames
  | users
  deriving DecidableEq, Repr

/-- What `orjson.dumps` is given. -/
inductive Json
  | names (names : List String)
  | records (records : List (String × Data))

/-- `[git-archive]`, what the records of the RPC depend on, and `orjson.dumps`. -/
structure Settings where
  api : Rpc.Api
  repo : Spec → String
  dumps : Json → Bytes

/-- What a run depends on besides the settings. -/
structure Run where
  db : Db
  popularity : Entity → Value
  /-- `package.PopularityUpdated.timestamp()`. -/
  popularityUpdated : Entity → Value
  returned : List Extra → List Extra

/-- `.order_by(Name.asc())`. -/
def orderByName (cfg : Config) (names : List String) : List String :=
  names.mergeSort fun a b => decide (cfg.collate a ≤ cfg.collate b)

/-- `data.pop(key)`, for each of the keys. -/
def pop (keys : List String) (data : Data) : Data := fun key =>
  if key ∈ keys then none else data key

namespace Metadata

/-- The keys of a record that go to the record of its base. -/
def popped : List String :=
  ["PackageBaseID", "URLPath", "FirstSubmitted", "LastModified", "OutOfDate", "Maintainer",
    "Keywords", "NumVotes", "Popularity"]

/-- `pkgbase_data`. -/
def pkgbaseData (popularityUpdated : Value) (data : Data) : Data := fun key =>
  if key = "ID" then data "PackageBaseID"
  else if key = "PopularityUpdated" then some popularityUpdated
  else if key ∈ popped ∧ key ≠ "PackageBaseID" then data key
  else none

variable (s : Settings) (run : Run)

/-- `rpc.entities(base_query).all()`. -/
def packages : List Entity := Rpc.entities run.db (Search.RPCSearch.init run.db).query

/-- `rpc.get_info_json_data`, after `rpc.subquery` for all of the packages. -/
def info (package : Entity) : Data :=
  let ids := (packages run).map (·.id)
  let rows := run.returned (Rpc.subqueries s.api.dbms.cfg run.db ids)
  Rpc.getInfoJsonData s.api run.popularity (Rpc.extraInfo run.db ids rows) package

/-- `pkgbases`, after the loop. -/
def pkgbases : List (String × Data) :=
  Dict.ofPairs ((packages run).map fun package =>
    (package.packageBaseName, pkgbaseData (run.popularityUpdated package) (info s run package)))

/-- `pkgnames`, after the loop. -/
def pkgnames : List (String × Data) :=
  Dict.ofPairs ((packages run).map fun package =>
    (package.name, pop ("ID" :: popped) (info s run package)))

end Metadata

/-- `Spec.generate`: the outputs, each a file name and the data for it. -/
def generate (s : Settings) (run : Run) : Spec → List (String × Bytes)
  | .metadata =>
      [("pkgname.json", s.dumps (.records (Metadata.pkgnames s run))),
        ("pkgbase.json", s.dumps (.records (Metadata.pkgbases s run)))]
  | .pkgbases =>
      let query := orderByName s.api.dbms.cfg (run.db.packageBases.map (·.name))
      [("pkgbase.json", s.dumps (.names query))]
  | .pkgnames =>
      let query := (Search.PackageSearch.packages run.db).map (·.package.name)
      [("pkgname.json", s.dumps (.names (orderByName s.api.dbms.cfg query)))]
  | .users =>
      let query := orderByName s.api.dbms.cfg (run.db.users.map (·.username))
      [("users.json", s.dumps (.names query))]

/-! ### `aurweb/scripts/git_archive.py` -/

/-- Where a run ends. -/
inductive Stop
  | never
  /-- After some outputs and some bytes of the next one. -/
  | writing (outputs bytes : Nat)
  /-- After `repo.index.write()`. -/
  | staged
  deriving DecidableEq, Repr

/-- What is written of the outputs; `open` has emptied the next one. -/
def written (outputs : List (String × Bytes)) : Stop → List (String × Bytes)
  | .writing done bytes =>
      outputs.take done ++ ((outputs.drop done).head?.map fun output =>
        (output.1, output.2.take bytes)).toList
  | _ => outputs

/-- `update_repository`. -/
def updateRepository (stop : Stop) (repo : Repo String Bytes) : Repo String Bytes :=
  let changes := repo.status
  if changes ≠ [] then
    let repo := repo.addAll
    if stop = .staged then repo else repo.commit
  else repo

/-- `main`, for a repository of its own. -/
def update (outputs : List (String × Bytes)) (stop : Stop) (repo : Repo String Bytes) :
    Repo String Bytes :=
  let repo := repo.write (written outputs stop)
  match stop with
  | .writing _ _ => repo
  | _ => updateRepository stop repo

/-- `main`, with the repositories by their paths. -/
def main (s : Settings) (repos : String → Repo String Bytes) (job : Spec × Run × Stop) :
    String → Repo String Bytes :=
  let (spec, run, stop) := job
  Function.update repos (s.repo spec) (update (generate s run spec) stop (repos (s.repo spec)))

/-- The repositories after some runs, the first of which has found none. -/
def repos (s : Settings) (jobs : List (Spec × Run × Stop)) : String → Repo String Bytes :=
  jobs.foldl (main s) fun _ => {}

end Aurweb.GitArchive
