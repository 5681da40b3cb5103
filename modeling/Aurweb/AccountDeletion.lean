/-
The deletion of accounts: `_delete` of `aurweb/scripts/accountmaint.py` and
`account_delete_post` of `aurweb/routers/accounts.py`.

Seventeen columns of the schema refer to `Users`, and two of the tables they are in are read
by logins alone; here they stand beside the others.  The script deletes with a statement of
its own, so that only the foreign keys act.  The page deletes an object of a session, which
clears the columns it knows of first.
-/
import Aurweb.Users

namespace Aurweb.AccountDeletion

/-- The database, with the two tables that only logins read. -/
structure Database where
  db : Db := {}
  sessions : List Users.Session := []
  sshPubKeys : List Users.SSHPubKey := []
  deriving DecidableEq, Repr, Inhabited

namespace Database

/-- `DELETE FROM Users WHERE ID = uid`. -/
def deleteUser (d : Database) (uid : Nat) : Database where
  db := d.db.deleteUser uid
  sessions := Table.delete (·.usersID == uid) d.sessions
  sshPubKeys := Table.delete (·.userID == uid) d.sshPubKeys

/-- `DELETE FROM Users WHERE ID IN batch`. -/
def deleteUsers (d : Database) (batch : List Nat) : Database := batch.foldl deleteUser d

/-- `result.rowcount` of that statement. -/
def rowcount (d : Database) (batch : List Nat) : Nat :=
  (d.db.users.filter fun u => batch.contains u.id).length

/-- `db.delete(user)`; the sessions and the keys of an account are deleted with it. -/
def deleteAccount (d : Database) (uid : Nat) : Database where
  db := Aurweb.deleteAccount d.db uid
  sessions := Table.delete (·.usersID == uid) d.sessions
  sshPubKeys := Table.delete (·.userID == uid) d.sshPubKeys

end Database

/-- The loop of `_delete`, with the number of rows it has deleted. -/
def deleteBatches (d : Database) (deleted : Nat) : List Nat → Nat × Database
  | [] => (deleted, d)
  | uid :: uids =>
      let batch := (uid :: uids).take AccountMaint.batchSize
      deleteBatches (d.deleteUsers batch) (deleted + d.rowcount batch)
        ((uid :: uids).drop AccountMaint.batchSize)
termination_by uids => uids.length
decreasing_by
  have hbatch : 0 < AccountMaint.batchSize := by decide
  rw [List.length_drop, List.length_cons]
  omega

/-- `_delete`. -/
def delete (cfg : Config) (d : Database) (now : Nat) (dryRun : Bool) : Nat × Database :=
  let uids := AccountMaint.expired cfg d.db now
  if dryRun then (uids.length, d) else deleteBatches d 0 uids

/-- `account_delete_post`. -/
def accountDeletePost (cfg : Config) (d : Database) (user : User) (name : String)
    (confirm validPassword : Bool) : Response × Database :=
  match accountDeleteCheck cfg d.db user name confirm validPassword with
  | .error r => (r, d)
  | .ok target => (.redirect "/", d.deleteAccount target.id)

end Aurweb.AccountDeletion
