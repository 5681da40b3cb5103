/-
`packages_get` of `routers/packages.py`: the search page.

The keywords and the buttons make the query, which is counted and then sorted and cut into pages.
In what order the database returns rows that compare equal is its own affair: a page is cut from
any order that the columns of `sort_by` allow.
-/
import Aurweb.Lib.Paging
import Aurweb.Search

namespace Aurweb.Search

/-- The query parameters of the page, with what `get` returns where they are absent. -/
structure Params where
  seB : String := "nd"
  k : String := ""
  outdated : Option String := none
  submit : String := "Go"
  sb : Option String := none
  so : Option String := none
  deriving DecidableEq, Repr

/-- `keywords.split(" ")`. -/
def words (k : String) : List String := (k.toList.splitOn ' ').map String.ofList

/-- The part of `packages_get` that applies the keywords. -/
def applyKeywords (d : Dbms) (db : Db) (params : Params) (s : PackageSearch) : PackageSearch :=
  if params.seB ∈ ["m", "c", "M", "s"] then s.searchBy d db params.seB (d.strip params.k)
  else if params.seB = "k" then s.searchByKeywords d db (words params.k)
  else (words params.k).foldl (fun s keyword => s.searchBy d db params.seB keyword) s

/-- The filters behind the keywords. -/
def applyFlags (params : Params) (s : PackageSearch) : PackageSearch :=
  let s :=
    match params.outdated.filter (· ≠ "") with
    | none => s
    | some flagged =>
        if flagged = "on" then s.filter fun r => r.base.outOfDateTS.isSome
        else s.filter fun r => r.base.outOfDateTS.isNone
  if params.submit = "Orphans" then s.filter fun r => r.base.maintainerUID.isNone else s

/-- The query of the page, before it is sorted. -/
def pageQuery (d : Dbms) (db : Db) (uid : Nat) (params : Params) : List Row :=
  (applyFlags params (applyKeywords d db params (PackageSearch.init db (some uid)))).results d

/-- `db_count_cache`, with what the cache holds for the query. -/
def dbCountCache (cached : Option Nat) (query : List Row) : Nat := cached.getD query.length

/-- `num_packages`, the count that is displayed. -/
def numPackages (d : Dbms) (db : Db) (uid : Nat) (params : Params) (cached : Option Nat) : Nat :=
  dbCountCache cached (pageQuery d db uid params)

/-! ### Sorting -/

/-- `column.asc()` and `column.desc()`. -/
def direct (order : String) (column : Row → Row → Ordering) : Row → Row → Ordering :=
  if order = "desc" then fun a b => column b a else column

section

variable {cfg : Config} (c : Collation cfg) (popularity : Nat → Nat) (uid : Nat) (order : String)

/-- The columns `Package.Name` and `PackageBase.Name`. -/
def byName (a b : Row) : Ordering := c.compare a.package.name b.package.name

def byBaseName (a b : Row) : Ordering := c.compare a.base.name b.base.name

/-- `User.Username`, which is `NULL` for an orphan: that comes before every name. -/
def byUsername : Row → Row → Ordering :=
  compareLex (compareOn (·.user.isSome)) fun a b =>
    c.compare ((a.user.map (·.username)).getD "") ((b.user.map (·.username)).getD "")

def sortByName : Row → Row → Ordering := direct order (byName c)

def sortByVotes : Row → Row → Ordering :=
  compareLex (direct order (compareOn (·.base.numVotes))) (direct order (byBaseName c))

/-- `popularity` is the column of the base with that `ID`, in units of its last digit. -/
def sortByPopularity : Row → Row → Ordering :=
  compareLex (direct order (compareOn fun r => popularity r.base.id)) (direct order (byBaseName c))

def sortByVoted : Row → Row → Ordering :=
  compareLex (direct order (compareOn fun r => r.vote.any (·.usersID == uid)))
    (direct order (byName c))

def sortByNotify : Row → Row → Ordering :=
  compareLex (direct order (compareOn fun r => r.notification.any (·.userID == uid)))
    (direct order (byName c))

def sortByMaintainer : Row → Row → Ordering :=
  compareLex (direct order (byUsername c)) (direct order (byName c))

def sortByLastModified : Row → Row → Ordering :=
  compareLex (direct order (compareOn (·.base.modifiedTS))) (direct order (byBaseName c))

/-- `sort_by`. -/
def sortBy (sortBy ordering : Option String) : Row → Row → Ordering :=
  let order := if ordering = some "a" then "asc" else "desc"
  match sortBy with
  | some "n" => sortByName c order
  | some "v" => sortByVotes c order
  | some "w" => sortByVoted c uid order
  | some "o" => sortByNotify c uid order
  | some "m" => sortByMaintainer c order
  | some "l" => sortByLastModified c order
  | _ => sortByPopularity c popularity order

end

/-! ### Pages -/

/-- `defaults.PP`. -/
def defaultPP : Nat := 50

/-- `sanitize_params`, with `int`; an absent parameter has its default. -/
def sanitizeParams (int : String → Option Int) (offset perPage : Option String) : Nat × Nat :=
  (match offset.bind int with
    | some o => if o < 0 then 0 else o.toNat
    | none => 0,
   match perPage.bind int with
    | some pp => if pp ≤ 0 then defaultPP else pp.toNat
    | none => defaultPP)

/-- The number of results on a page. -/
def pageSize (int : String → Option Int) (maxSearchResults : Nat) (perPage : Option String) : Nat :=
  min (sanitizeParams int none perPage).2 maxSearchResults

/-- `packages`, from the rows in the order that the database returns them in. -/
def pageOf (int : String → Option Int) (maxSearchResults : Nat) (offset perPage : Option String)
    (results : List Row) : List Row :=
  Paging.cut (sanitizeParams int offset perPage).1 (pageSize int maxSearchResults perPage) results

end Aurweb.Search
