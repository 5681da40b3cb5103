/-
The keywords of a package base, as the form of its page submits them.

`pkgbase_keywords` takes one text.  What `split` and `lower` go by is not ASCII, so they are
parameters; an exception of the database ends the transaction with nothing of it written.  The SSH
command is `pkgbaseSetKeywords` of `GitServe`.
-/
import Aurweb.GitServe
import Aurweb.Routers

namespace Aurweb.Keywords

/-- What `str.split` takes for white space, and `str.lower`. -/
structure Python where
  isSpace : Char → Bool
  lower : String → String
  isSpace_blank : isSpace ' ' = true
  lower_lower : ∀ s, lower (lower s) = lower s

/-- `keywords.split()`. -/
def Python.split (py : Python) (keywords : String) : List String :=
  ((keywords.toList.splitOnP py.isSpace).filter (· ≠ [])).map String.ofList

/-- `{k.lower() for k in keywords.split()}`. -/
def Python.words (py : Python) (keywords : String) : List String :=
  ((py.split keywords).map py.lower).dedup

/-- `~PackageKeyword.Keyword.in_(keywords)`. -/
def isOther (cfg : Config) (keywords : List String) (r : PackageKeyword) : Bool :=
  !keywords.any (cfg.sameName r.keyword)

/-- `existing_keywords`, of the rows of the package base. -/
def existingKeywords (py : Python) (cfg : Config) (mine : List PackageKeyword)
    (keywords : List String) : List String :=
  let otherKeywordStrings := (mine.filter (isOther cfg keywords)).map fun r => py.lower r.keyword
  (mine.filter (isOther cfg otherKeywordStrings)).map fun r => py.lower r.keyword

/-- The transaction of `pkgbase_keywords`. -/
def setKeywords (py : Python) (cfg : Config) (db : Db) (baseID : Nat) (keywords : List String) :
    Except String Db :=
  let mine := db.packageKeywords.filter (·.packageBaseID == baseID)
  let newKeywords := keywords.filter fun w => !(existingKeywords py cfg mine keywords).contains w
  let kept := (mine.filter fun r => !isOther cfg keywords r).map (·.keyword)
  match GitServe.refuses cfg kept newKeywords with
  | some e => .error e
  | none =>
      .ok { db with
        packageKeywords :=
          Table.delete (fun r => r.packageBaseID == baseID && isOther cfg keywords r)
              db.packageKeywords ++
            newKeywords.map fun w => { packageBaseID := baseID, keyword := w } }

/-- `pkgbase_keywords`. -/
def pkgbaseKeywords (py : Python) (cfg : Config) (db : Db) (user : User) (name keywords : String) :
    Response × Db :=
  getPkgOrBase cfg db name fun pkgbase =>
    if !hasCredential user .pkgbaseSetKeywords
        (pkgbase.maintainerUID :: comaintainerIDs db pkgbase.id) then
      (.render 401 [], db)
    else
      match setKeywords py cfg db pkgbase.id (py.words keywords) with
      | .error e => (.serverError e, db)
      | .ok db => (.redirect s!"/pkgbase/{name}", db)

end Aurweb.Keywords
