/-
The packages of the official repositories: `aurweb/scripts/aurblup.py`.

The session of the script does not flush on its own: what is deleted, created and written in the
three passes reaches the table when the transaction ends, and the queries between them see the
table as it was.  A set is gone through in an order that is the interpreter's.  The columns hold
64 characters, and the unique index compares by the collation of the table.
-/
import Aurweb.Lib.Dict
import Aurweb.Lib.Table
import Mathlib.Data.List.Dedup

namespace Aurweb.Aurblup

/-! ### Sync databases -/

/-- `<`, `=` or `>`. -/
def isOperator (c : Char) : Bool := c == '<' || c == '=' || c == '>'

/-- An entry of `provides`, as libalpm puts it together: a name and a constraint, in one line. -/
structure Provision where
  name : String
  constraint : String
  bare : ∀ c ∈ name.toList, isOperator c = false
  marked : ∀ c ∈ constraint.toList.head?, isOperator c = true
  oneLine : '\n' ∉ constraint.toList

def Provision.text (provision : Provision) : String := provision.name ++ provision.constraint

structure SyncPackage where
  name : String
  provides : List Provision

structure SyncDb where
  name : String
  pkgcache : List SyncPackage

/-- Package and provided name. -/
abbrev Pair := String × String

/-- `re.sub(r"(<|=|>).*", "", ·)`, within a match or not; a match ends with the line. -/
def sub : Bool → List Char → List Char
  | _, [] => []
  | true, c :: cs => if c = '\n' then c :: sub false cs else sub true cs
  | false, c :: cs => if isOperator c then sub true cs else c :: sub false cs

/-- `provisionname`. -/
def provisionName (provision : String) : String := String.ofList (sub false provision.toList)

/-- What is added to `providers` for a package. -/
def SyncPackage.pairs (pkg : SyncPackage) : List Pair :=
  (pkg.name, pkg.name) :: pkg.provides.map fun provision =>
    (pkg.name, provisionName provision.text)

/-- The assignments to `repomap`; its keys are `providers`. -/
def assignments (dbs : List SyncDb) : List (Pair × String) :=
  dbs.flatMap fun repo => repo.pkgcache.flatMap fun pkg => pkg.pairs.map fun p => (p, repo.name)

def providers (dbs : List SyncDb) : List Pair := (assignments dbs).map (·.1)

/-- `repomap.get`. -/
def repomap (dbs : List SyncDb) : Pair → Option String := Dict.assign (assignments dbs)

/-! ### The table -/

/-- A row of `OfficialProviders`. -/
structure Provider where
  id : Nat
  name : String
  repo : String
  provides : String
  deriving DecidableEq, Repr

def Provider.pair (r : Provider) : Pair := (r.name, r.provides)

structure OfficialProviders where
  rows : List Provider := []
  nextID : Nat := 1
  deriving DecidableEq, Repr

/-- The server, as far as the table is concerned, and the interpreter. -/
structure Platform where
  /-- The key by which `utf8mb4_bin` compares. -/
  collate : String → String
  /-- The order of a set that was built from a list. -/
  order : List Pair → List Pair
  mem_order : ∀ {l : List Pair} {p : Pair}, p ∈ order l ↔ p ∈ l
  nodup_order : ∀ l, (order l).Nodup

/-- What the unique index goes by. -/
def Platform.key (pf : Platform) (p : Pair) : Pair := (pf.collate p.1, pf.collate p.2)

/-- `String(64)`. -/
def fits (s : String) : Bool := s.length ≤ 64

/-! ### The three passes -/

/-- What the session has to write. -/
structure Session where
  deleted : List Nat
  new : List (Pair × String)
  /-- Rows and what has been assigned to their `Repo`. -/
  dirty : List (Nat × Option String)

/-- `old_providers`. -/
def OfficialProviders.pairs (t : OfficialProviders) : List Pair := t.rows.map Provider.pair

/-- The ids of the rows that are deleted. -/
def deleteStale (pf : Platform) (t : OfficialProviders) (dbs : List SyncDb) : List Nat :=
  (pf.order (t.pairs.filter fun p => !(providers dbs).contains p)).flatMap fun p =>
    (t.rows.filter fun r => pf.key r.pair == pf.key p).map (·.id)

/-- `OfficialProvider(Name=…, Repo=…, Provides=…)`. -/
def create (p : Pair) (repo : Option String) : Except String (Pair × String) :=
  if p.1 = "" then .error "Column Name cannot be null."
  else
    match repo with
    | none => .error "Column Repo cannot be null."
    | some repo =>
        if repo = "" then .error "Column Repo cannot be null."
        else if p.2 = "" then .error "Column Provides cannot be null."
        else .ok (p, repo)

def addNew (pf : Platform) (t : OfficialProviders) (dbs : List SyncDb) :
    Except String (List (Pair × String)) :=
  (pf.order ((providers dbs).filter fun p => !t.pairs.contains p)).mapM fun p =>
    create p (repomap dbs p)

/-- The rows to be deleted are still in the table, the new ones not yet. -/
def rehome (t : OfficialProviders) (dbs : List SyncDb) : List (Nat × Option String) :=
  (t.rows.filter fun op => some op.repo != repomap dbs op.pair).map fun op =>
    (op.id, repomap dbs op.pair)

/-! ### The flush -/

/-- An `UPDATE` of one row. -/
def setRepo (rows : List Provider) (change : Nat × Option String) : Except String (List Provider) :=
  match change.2 with
  | none => .error "Column 'Repo' cannot be null"
  | some repo =>
      if fits repo then
        .ok (Table.update (·.id == change.1) (fun r => { r with repo := repo }) rows)
      else .error "Data too long for column 'Repo'"

/-- An `INSERT`. -/
def OfficialProviders.insert (pf : Platform) (t : OfficialProviders) (x : Pair × String) :
    Except String OfficialProviders :=
  if !(fits x.1.1 && fits x.2 && fits x.1.2) then .error "Data too long for column"
  else if t.rows.any fun r => pf.key r.pair == pf.key x.1 then
    .error "Duplicate entry for key 'ProviderNameProvides'"
  else
    .ok {
      rows := t.rows ++ [{ id := t.nextID, name := x.1.1, repo := x.2, provides := x.1.2 }]
      nextID := t.nextID + 1 }

def setRepos : List Provider → List (Nat × Option String) → Except String (List Provider)
  | rows, [] => .ok rows
  | rows, change :: changes => do setRepos (← setRepo rows change) changes

def OfficialProviders.insertAll (pf : Platform) :
    OfficialProviders → List (Pair × String) → Except String OfficialProviders
  | t, [] => .ok t
  | t, x :: new => do insertAll pf (← t.insert pf x) new

/-- Rows are updated, inserted and deleted, in this order; a deleted object is not updated. -/
def OfficialProviders.flush (pf : Platform) (t : OfficialProviders) (s : Session) :
    Except String OfficialProviders := do
  let rows ← setRepos t.rows (s.dirty.filter fun change => !s.deleted.contains change.1)
  let t ← { t with rows := rows : OfficialProviders }.insertAll pf s.new
  return { t with rows := Table.delete (fun r => s.deleted.contains r.id) t.rows }

/-- `_main`. -/
def main (pf : Platform) (t : OfficialProviders) (dbs : List SyncDb) :
    Except String OfficialProviders := do
  let new ← addNew pf t dbs
  t.flush pf { deleted := deleteStale pf t dbs, new := new, dirty := rehome t dbs }

/-- The table after a run; one that raises is rolled back. -/
def aurblup (pf : Platform) (t : OfficialProviders) (dbs : List SyncDb) : OfficialProviders :=
  match main pf t dbs with
  | .ok t' => t'
  | .error _ => t

end Aurweb.Aurblup
