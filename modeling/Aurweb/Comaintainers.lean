/-
`pkgbase_comaintainers_post` of `aurweb/routers/pkgbase.py` with the primary key of
`PackageComaintainers`.

Each comaintainer is added in a transaction of its own, and a second row for the same user and
base is an `IntegrityError` there, which nothing catches.
-/
import Aurweb.Routers

namespace Aurweb.Comaintainers

/-- `add_comaintainer`. -/
def addComaintainer (pkgbase : PackageBase) (db : Db) (comaintainer : User) : Outcome :=
  if pkgbase.maintainerUID = some comaintainer.id then done db
  else if isComaintainer db pkgbase.id comaintainer.id then
    (.error (.other "IntegrityError"), db)
  else
    done (insertComaintainer db
      { usersID := comaintainer.id, packageBaseID := pkgbase.id
        priority := latestPriority db pkgbase.id + 1 })

/-- `util.apply_all(users, add_comaint)`. -/
def addEach (pkgbase : PackageBase) : List User → Db → Outcome
  | [], db => done db
  | u :: users, db => (addComaintainer pkgbase db u).andThen (addEach pkgbase users)

/-- `add_comaintainers`: what it returns or raises, and what is stored then. -/
def addComaintainers (cfg : Config) (db : Db) (pkgbase : PackageBase) (usernames : List String) :
    Except Raised (Option String) × Db :=
  match usernames.find? fun username => (userNamed cfg db username).isNone with
  | some username => (.ok (some s!"Invalid user name: {username}"), db)
  | none =>
      let added := addEach pkgbase (usernames.filterMap (userNamed cfg db)) db
      (added.1.map fun _ => none, added.2)

/-- The page for what `add_comaintainers` has returned. -/
def answer (pkgbase : PackageBase) : Except Raised (Option String) × Db → Response × Db
  | (.error e, db) => Outcome.response (.error e, db) (.redirect s!"/pkgbase/{pkgbase.name}")
  | (.ok (some error), db) => (.render 200 [error], db)
  | (.ok none, db) => (.redirect s!"/pkgbase/{pkgbase.name}", db)

/-- `pkgbase_comaintainers_post`; `users` are the lines of the form, in whichever order the
set of them is gone through. -/
def pkgbaseComaintainersPost (cfg : Config) (db : Db) (user : User) (name : String)
    (users : List String) : Response × Db :=
  getPkgOrBase cfg db name fun pkgbase =>
    if !hasCredential user .pkgbaseEditComaintainers [pkgbase.maintainerUID] then
      (.redirect s!"/pkgbase/{name}", db)
    else
      let records := comaintainerNames db pkgbase.id
      let removed := removeComaintainers cfg db pkgbase.id
        (records.filter fun username => !users.contains username)
      answer pkgbase (addComaintainers cfg removed pkgbase
        (users.dedup.filter fun username => !records.contains username))

end Aurweb.Comaintainers
