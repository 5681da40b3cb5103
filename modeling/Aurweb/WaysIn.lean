/-
Ways in: who comes to be let in as which account.

The requests of `Sessions` are under way at the same time; here accounts come and go, too.  A
visitor is let in with the identifier of a session, which is looked up in `Sessions`, or with a
key, which the SSH daemon has `aurweb-git-auth` look up in `SSHPubKeys`.
-/
import Aurweb.GitAuth

namespace Aurweb.Users

/-- `DELETE FROM Users WHERE ID = uid`, with the rows that go with it. -/
def Store.deleteAccount (st : Store) (uid : Nat) : Store :=
  { st with
    accounts := Table.delete (·.id == uid) st.accounts
    sshPubKeys := Table.delete (·.userID == uid) st.sshPubKeys
    sessions := Table.delete (·.usersID == uid) st.sessions }

/-- `log_ssh_login`. -/
def Store.logSSHLogin (cfg : Config) (st : Store) (user remoteAddr : String) (now : Nat) : Store :=
  { st with
    accounts := Table.update (fun u : Account => cfg.sameName u.username user)
      (fun u => { u with lastSSHLogin := timestamp now, lastSSHLoginIPAddress := some remoteAddr })
      st.accounts }

/-- `86400 * 7`. -/
def aWeek : Nat := 86400 * 7

/-- `_main` of `usermaint.py`: `limit_to` is a week ago, compared with a term moved over. -/
def Store.usermaint (st : Store) (now : Nat) : Store :=
  let accounts := Table.update (fun u : Account => u.lastLogin + aWeek < timestamp now)
    (fun u => { u with lastLoginIPAddress := none }) st.accounts
  { st with
    accounts := Table.update (fun u : Account => u.lastSSHLogin + aWeek < timestamp now)
      (fun u => { u with lastSSHLoginIPAddress := none }) accounts }

structure Gate where
  office : Office := { store := {} }
  /-- `AUTO_INCREMENT` of `Users`. -/
  nextID : Nat := 1

def Gate.store (g : Gate) : Store := g.office.store

def Gate.write (g : Gate) (store : Store) : Gate := { g with office := { g.office with store } }

/-- What happens at the gate. -/
inductive Arrival
  | register (args : Args) (t : Tick) (token : String)
  /-- A request begins, or goes on. -/
  | event (ev : Event)
  | logout (uid : Nat)
  | passreset (user resetkey password confirm : String) (t : Tick)
  /-- By `account_delete_post` or by the maintenance job. -/
  | delete (uid : Nat)
  /-- A session that `aurweb-git-serve` has begun with. -/
  | ssh (user remoteAddr : String) (now : Nat)
  | usermaint (now : Nat)

def Gate.step (env : Env) (g : Gate) : Arrival → Gate
  | .register args t token =>
      match accountRegisterPost env g.store g.nextID args t token with
      | .error _ => g
      | .ok store => { g.write store with nextID := g.nextID + 1 }
  | .event ev => { g with office := g.office.step env ev }
  | .logout uid => g.write (g.store.deleteSessions uid)
  | .passreset user resetkey password confirm t =>
      g.write (passresetPost env g.store user resetkey password confirm t).2
  | .delete uid => g.write (g.store.deleteAccount uid)
  | .ssh user remoteAddr now => g.write (g.store.logSSHLogin env.cfg user remoteAddr now)
  | .usermaint now => g.write (g.store.usermaint now)

end Aurweb.Users
