/-
`aurweb/packages/search.py`: the queries of the web search and of the RPC.

A query is the list of its rows; the `join` and `filter` of SQLAlchemy are those of SQL on the
list.  A row carries the package and its base, and of every other table that has been joined the
row of it.  The order of the rows is nobody's: `ORDER BY` comes after.
-/
import Aurweb.Lib.Query
import Aurweb.Schema

namespace Aurweb.Search

/-- What the database compares with: `LIKE` takes the pattern and then the value.  `lower` and
`strip` are `str.lower` and `str.strip`. -/
structure Dbms where
  cfg : Config
  like : String → String → Bool
  lower : String → String
  strip : String → String

/-- How the database orders the strings that it compares. -/
structure Collation (cfg : Config) where
  compare : String → String → Ordering
  trans : Std.TransCmp compare
  eq_iff : ∀ a b, compare a b = .eq ↔ cfg.sameName a b = true

/-- `column.like(f"%{keywords}%")`. -/
def Dbms.contains (d : Dbms) (keywords value : String) : Bool :=
  d.like ("%" ++ keywords ++ "%") value

/-- `column = value` where the column may be `NULL`. -/
def nullable (column : Option String) (p : String → Bool) : Bool := column.any p

structure Row where
  package : Package
  base : PackageBase
  vote : Option PackageVote := none
  notification : Option PackageNotification := none
  user : Option User := none
  keyword : Option PackageKeyword := none
  comaintainer : Option PackageComaintainer := none
  dependency : Option PackageDependency := none
  relation : Option PackageRelation := none
  group : Option Group := none
  submitter : Option User := none
  deriving DecidableEq, Repr

structure PackageSearch where
  query : List Row
  joinedUser : Bool := false
  joinedKeywords : Bool := false
  joinedComaint : Bool := false
  groupedByName : Bool := false
  deriving DecidableEq, Repr

namespace PackageSearch

/-- `db.query(Package).join(PackageBase)`. -/
def packages (db : Db) : List Row :=
  db.packages.flatMap fun p =>
    (db.packageBases.filter (·.id == p.packageBaseID)).map fun b => { package := p, base := b }

/-- `__init__`, with the `ID` of the user if there is one. -/
def init (db : Db) (user : Option Nat) : PackageSearch :=
  match user with
  | none => { query := packages db }
  | some uid =>
      let query := Query.outer
        (fun r => db.packageVotes.filter fun v => v.packageBaseID == r.base.id && v.usersID == uid)
        (fun r v => { r with vote := v }) (packages db)
      let query := Query.outer
        (fun r => db.packageNotifications.filter fun n =>
          n.packageBaseID == r.base.id && n.userID == uid)
        (fun r n => { r with notification := n }) query
      { query }

def filter (p : Row → Bool) (s : PackageSearch) : PackageSearch :=
  { s with query := s.query.filter p }

/-- `_join_user`. -/
def joinUser (db : Db) (s : PackageSearch) : PackageSearch :=
  if s.joinedUser then s
  else
    { s with
      query := Query.outer (fun r => db.users.filter fun u => some u.id == r.base.maintainerUID)
        (fun r u => { r with user := u }) s.query
      joinedUser := true }

/-- `_join_keywords`. -/
def joinKeywords (db : Db) (s : PackageSearch) : PackageSearch :=
  if s.joinedKeywords then s
  else
    { s with
      query := Query.inner (fun r => db.packageKeywords.filter (·.packageBaseID == r.base.id))
        (fun r k => { r with keyword := some k }) s.query
      joinedKeywords := true }

/-- `_join_comaint`. -/
def joinComaint (db : Db) (isouter : Bool) (s : PackageSearch) : PackageSearch :=
  let found := fun r : Row => db.packageComaintainers.filter (·.packageBaseID == r.base.id)
  if s.joinedComaint then s
  else
    { s with
      query :=
        if isouter then Query.outer found (fun r c => { r with comaintainer := c }) s.query
        else Query.inner found (fun r c => { r with comaintainer := some c }) s.query
      joinedComaint := true }

/-- `db.query(User).filter(User.Username == keywords).first()`, and `0` where there is none. -/
def uidNamed (d : Dbms) (db : Db) (keywords : String) : Nat :=
  match db.users.find? fun u => d.cfg.sameName u.username keywords with
  | none => 0
  | some u => u.id

/-! ### `search_by` -/

section

variable (d : Dbms) (db : Db) (keywords : String) (s : PackageSearch)

def searchByNamedesc : PackageSearch :=
  (s.joinUser db).filter fun r =>
    d.contains keywords r.package.name || nullable r.package.description (d.contains keywords)

def searchByName : PackageSearch :=
  (s.joinUser db).filter fun r => d.contains keywords r.package.name

def searchByExactName : PackageSearch :=
  (s.joinUser db).filter fun r => d.cfg.sameName r.package.name keywords

def searchByPkgbase : PackageSearch :=
  (s.joinUser db).filter fun r => d.contains keywords r.base.name

def searchByExactPkgbase : PackageSearch :=
  (s.joinUser db).filter fun r => d.cfg.sameName r.base.name keywords

def searchByMaintainer : PackageSearch :=
  let s := s.joinUser db
  if keywords ≠ "" then
    s.filter fun r =>
      r.user.any fun u => d.cfg.sameName u.username keywords && some u.id == r.base.maintainerUID
  else s.filter fun r => r.base.maintainerUID.isNone

def searchByComaintainer : PackageSearch :=
  let s := (s.joinUser db).joinComaint db false
  let uid := uidNamed d db keywords
  s.filter fun r => r.comaintainer.any (·.usersID == uid)

def searchByCoOrMaintainer : PackageSearch :=
  let s := (s.joinUser db).joinComaint db true
  let uid := uidNamed d db keywords
  s.filter fun r => r.comaintainer.any (·.usersID == uid) || r.user.any (·.id == uid)

def searchBySubmitter : PackageSearch :=
  let s := s.joinUser db
  let uid := uidNamed d db keywords
  s.filter fun r => r.base.submitterUID == some uid

end

/-- `_search_by_keywords`, with the set as a list. -/
def searchByKeywords (d : Dbms) (db : Db) (keywords : List String) (s : PackageSearch) :
    PackageSearch :=
  let s := (s.joinUser db).joinKeywords db
  let keywords := keywords.map d.lower
  let s := s.filter fun r => r.keyword.any fun k => keywords.any (d.cfg.sameName k.keyword)
  { s with groupedByName := true }

/-- `results`. -/
def results (d : Dbms) (s : PackageSearch) : List Row :=
  if s.groupedByName then Query.groupBy (fun r => d.cfg.collate r.package.name) s.query
  else s.query

/-- `search_by` for everything but `k`; what is no key is `nd`. -/
def searchBy (d : Dbms) (db : Db) (searchBy keywords : String) (s : PackageSearch) :
    PackageSearch :=
  match searchBy with
  | "n" => s.searchByName d db keywords
  | "b" => s.searchByPkgbase d db keywords
  | "N" => s.searchByExactName d db keywords
  | "B" => s.searchByExactPkgbase d db keywords
  | "m" => s.searchByMaintainer d db keywords
  | "c" => s.searchByComaintainer d db keywords
  | "M" => s.searchByCoOrMaintainer d db keywords
  | "s" => s.searchBySubmitter d db keywords
  | _ => s.searchByNamedesc d db keywords

end PackageSearch

/-! ### The RPC -/

namespace RPCSearch

open PackageSearch

/-- `RPCSearch.__init__`. -/
def init (db : Db) : PackageSearch := (PackageSearch.init db none).joinUser db

section

variable (d : Dbms) (db : Db) (keywords : String) (s : PackageSearch)

/-- `_join_depends`, and the filter on the name. -/
def searchByDependency (depType : DependencyType) : PackageSearch :=
  let s : PackageSearch := { s with
    query := Query.inner (fun r => db.packageDepends.filter (·.packageID == r.package.id))
      (fun r dep => { r with dependency := some dep }) s.query }
  let s := s.filter fun r => r.dependency.any (·.depType == depType)
  s.filter fun r => r.dependency.any fun dep => d.cfg.sameName dep.depName keywords

def searchByDepends : PackageSearch := searchByDependency d db keywords s .depends

def searchByMakedepends : PackageSearch := searchByDependency d db keywords s .makedepends

def searchByOptdepends : PackageSearch := searchByDependency d db keywords s .optdepends

def searchByCheckdepends : PackageSearch := searchByDependency d db keywords s .checkdepends

/-- `_join_relations`, and the filter on the name. -/
def searchByRelation (relType : RelationType) : PackageSearch :=
  let s : PackageSearch := { s with
    query := Query.inner (fun r => db.packageRelations.filter (·.packageID == r.package.id))
      (fun r rel => { r with relation := some rel }) s.query }
  let s := s.filter fun r => r.relation.any (·.relType == relType)
  s.filter fun r => r.relation.any fun rel => d.cfg.sameName rel.relName keywords

def searchByProvides : PackageSearch := searchByRelation d db keywords s .provides

def searchByConflicts : PackageSearch := searchByRelation d db keywords s .conflicts

def searchByReplaces : PackageSearch := searchByRelation d db keywords s .replaces

/-- `_join_groups`, and the filter on the name. -/
def searchByGroups : PackageSearch :=
  let s : PackageSearch := { s with
    query := Query.inner
      (fun r => (db.packageGroups.filter (·.packageID == r.package.id)).flatMap fun pg =>
        db.groups.filter (·.id == pg.groupID))
      (fun r g => { r with group := some g }) s.query }
  s.filter fun r => r.group.any fun g => d.cfg.sameName g.name keywords

/-- The `_search_by_keywords` of the RPC. -/
def searchByKeywords : PackageSearch :=
  (s.joinKeywords db).filter fun r => r.keyword.any fun k => d.cfg.sameName k.keyword keywords

end

/-- `RPCSearch.search_by`: there is no callback for what is no key. -/
def searchBy (d : Dbms) (db : Db) (by_ keywords : String) (s : PackageSearch) :
    Except String PackageSearch :=
  match by_ with
  | "nd" => .ok (s.searchByNamedesc d db keywords)
  | "n" => .ok (s.searchByName d db keywords)
  | "k" => .ok (searchByKeywords d db keywords s)
  | "m" => .ok (s.searchByMaintainer d db keywords)
  | "c" => .ok (s.searchByComaintainer d db keywords)
  | "s" => .ok (s.searchBySubmitter d db keywords)
  | "depends" => .ok (searchByDepends d db keywords s)
  | "makedepends" => .ok (searchByMakedepends d db keywords s)
  | "optdepends" => .ok (searchByOptdepends d db keywords s)
  | "checkdepends" => .ok (searchByCheckdepends d db keywords s)
  | "provides" => .ok (searchByProvides d db keywords s)
  | "conflicts" => .ok (searchByConflicts d db keywords s)
  | "replaces" => .ok (searchByReplaces d db keywords s)
  | "groups" => .ok (searchByGroups d db keywords s)
  | _ => .error "TypeError"

end RPCSearch

end Aurweb.Search
