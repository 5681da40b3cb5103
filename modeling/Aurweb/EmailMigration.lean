/-
The migration that introduced `NormalizedEmail`, statement by statement.

The data steps of `b7c419f0a2d1_add_normalizedemail_to_user.py`.  Rows are written by their ids,
one statement for each; the groups come out of a query and are keyed by the smallest id in them.
-/
import Aurweb.AccountDeletion
import Aurweb.Lib.Dict
import Aurweb.Lib.Query
import Aurweb.NormalizedEmail
import Mathlib.Data.List.Sort

namespace Aurweb.EmailMigration

open AccountDeletion (Database)
open NormalizedEmail (Library normalizeEmail collide keeperID)

/-- `_delete_spam_accounts`. -/
def deleteSpamAccounts (d : Database) : Database :=
  d.deleteUsers ((d.db.users.filter fun u => u.suspended && !ownsContent d.db u.id).map (·.id))

/-- `UPDATE Users SET NormalizedEmail = :normalized WHERE ID = :id`, for one pair after another. -/
def setNormalizedEmail (db : Db) (values : List (Nat × Option String)) : Db :=
  values.foldl (fun db value =>
    updateUser db value.1 fun u => { u with normalizedEmail := value.2 }) db

/-- `_backfill`. -/
def backfill (lib : Library) (d : Database) : Database :=
  let rows := d.db.users.map fun u => (u.id, u.email)
  { d with
    db := setNormalizedEmail d.db (rows.map fun r => (r.1, some (normalizeEmail lib r.2))) }

/-- What `GROUP BY NormalizedEmail` goes by. -/
def groupKey (cfg : Config) (u : User) : Option String := u.normalizedEmail.map cfg.collate

/-- The rows of a group. -/
def groupOf (cfg : Config) (db : Db) (r : User) : List User :=
  db.users.filter fun u => groupKey cfg u == groupKey cfg r

/-- `MIN(ID)`. -/
def groupID (cfg : Config) (db : Db) (r : User) : Nat :=
  ((groupOf cfg db r).map (·.id)).foldl min r.id

/-- `dupes`: `Address` and `GroupID` of the groups of more than one row.  The server is free to
give the address of any row of the group. -/
def dupes (cfg : Config) (db : Db) : List (Option String × Nat) :=
  ((Query.groupBy (groupKey cfg) db.users).filter fun r => 1 < (groupOf cfg db r).length).map
    fun r => (r.normalizedEmail, groupID cfg db r)

/-- The rows of `_null_duplicates`, each with its `GroupID`. -/
def rows (cfg : Config) (db : Db) : List (Nat × User) :=
  ((dupes cfg db).flatMap fun dupe =>
    (db.users.filter fun u => collide cfg u.normalizedEmail dupe.1).map fun u =>
      (dupe.2, u)).insertionSort
    fun a b => a.1 < b.1 ∨ a.1 = b.1 ∧ a.2.id ≤ b.2.id

/-- `demoted`. -/
def demoted (cfg : Config) (lib : Library) (db : Db) : List Nat :=
  (Dict.items (rows cfg db)).flatMap fun group =>
    (group.2.filter fun m => some m.id != keeperID lib db group.2).map (·.id)

/-- `_null_duplicates`. -/
def nullDuplicates (cfg : Config) (lib : Library) (d : Database) : Database :=
  { d with
    db := setNormalizedEmail d.db ((demoted cfg lib d.db).map fun uid => (uid, none)) }

/-- The data steps of `upgrade`. -/
def upgrade (cfg : Config) (lib : Library) (d : Database) : Database :=
  nullDuplicates cfg lib (backfill lib (deleteSpamAccounts d))

end Aurweb.EmailMigration
