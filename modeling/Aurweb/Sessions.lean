/-
Sessions: who is logged in, and as whom.

`User.login` and `User.logout` of `aurweb/models/user.py`, `BasicAuthBackend.authenticate` of
`aurweb/auth/__init__.py`, `open_session` of `aurweb/routers/sso.py`, `passreset_post` and
`account_edit_post`.  There are two systems.  In the first requests are under way at the same
time and every transaction is an event; what one of them has looked at may be out of date by the
time it commits.  In the second requests are answered one after the other, and the history keeps
which identifiers have been issued and which of them were issued before the password of their
account was last set.
-/
import Aurweb.Users

namespace Aurweb.Users

/-! ### `authenticate` -/

/-- `timeout`. -/
def Env.timeout (env : Env) (remembered : Bool) : Nat :=
  if remembered then env.persistentCookieTimeout else env.loginTimeout

/-- `BasicAuthBackend.authenticate`: the user of the request, if it has one.  A session that
has been idle for too long is deleted. -/
def authenticate (env : Env) (st : Store) (sid : String) (remembered : Bool) (now : Nat) :
    Option Nat × Store :=
  if sid = "" then (none, st)
  else
    match st.sessions.find? (·.sessionID == sid) with
    | none => (none, st)
    | some record =>
        if record.lastUpdateTS + env.timeout remembered < timestamp now then
          (none, { st with sessions := Table.delete (·.sessionID == sid) st.sessions })
        else (some record.usersID, st)

/-! ### Logging in and out -/

/-- `or_(User.Username == user, User.Email == user)`. -/
def accountByNameOrEmail (env : Env) (st : Store) (user : String) : Option Account :=
  st.accounts.find? fun u => env.cfg.sameName u.username user || env.cfg.sameName u.email user

/-- `login_post` up to the transaction of `User.login`: whose session it opens. -/
def checkLogin (env : Env) (st : Store) (user passwd : String) (t : Tick) :
    Option Nat × Store :=
  match accountByNameOrEmail env st user with
  | none => (none, st)
  | some u =>
      match loginApproved env t u passwd st with
      | (true, st) => (some u.id, st)
      | (false, st) => (none, st)

/-- `authenticate` of `sso.py` up to the insertion in `open_session`. -/
def checkSSO (st : Store) (sub : String) (t : Tick) : Option Nat :=
  if st.bans.contains t.clientIP then none
  else
    match st.accounts.find? fun u => u.ssoAccountID == some sub with
    | none => none
    | some u => if u.suspended then none else some u.id

/-- `open_session` from there: the row of `Sessions` is inserted, never replaced. -/
def insertSession (t : Tick) (uid : Nat) (st : Store) : Except String Store :=
  if (st.account? uid).isNone || (st.session? uid).isSome ||
      st.sessions.any (·.sessionID == t.sid) then .error "IntegrityError"
  else
    let st := st.updateAccount uid fun u =>
      { u with lastLogin := timestamp t.now, lastLoginIPAddress := some t.clientIP }
    .ok { st with sessions := st.sessions ++ [Session.mk uid t.sid (timestamp t.now)] }

/-- `db_user` of `passreset_post`. -/
def resetAccount (env : Env) (st : Store) (user : String) : Option Account :=
  st.accounts.find? fun u =>
    (env.cfg.sameName u.username user || env.cfg.sameName u.email user) && !u.suspended

/-- `passreset_post`. -/
def passresetPost (env : Env) (st : Store) (user resetkey password confirm : String)
    (t : Tick) : Response × Store :=
  match resetAccount env st user with
  | none => (.render 404 ["Invalid e-mail."], st)
  | some dbUser =>
      if resetkey = "" then
        (.redirect "/passreset?step=confirm",
          st.updateAccount dbUser.id fun u => { u with resetKey := t.token })
      else if dbUser.resetKey = "" ∨ resetkey ≠ dbUser.resetKey then
        (.render 404 ["Invalid e-mail."], st)
      else if user = "" ∨ password = "" then (.render 400 ["Missing a required field."], st)
      else if password ≠ confirm then (.render 400 ["Password fields do not match."], st)
      else if password.length < env.passwdMinLen then
        (.render 400 [s!"Your password must be at least {env.passwdMinLen} characters."], st)
      else
        (.redirect "/passreset?step=complete",
          (st.deleteSessions dbUser.id).updateAccount dbUser.id fun u =>
            { u with resetKey := "", passwd := env.hashpw password t.salt })

/-! ### Requests at the same time -/

/-- A request that is under way, and what it has found out. -/
inductive Request
  | login (uid : Nat)
  | sso (uid : Nat)
  | edit (e : Edit)
  deriving DecidableEq, Repr

structure Office where
  store : Store
  inFlight : List Request := []
  deriving DecidableEq, Repr

inductive Event
  | login (user passwd : String) (t : Tick)
  | sso (sub : String) (t : Tick)
  | edit (editorID : Nat) (username : String) (args : Args) (t : Tick)
  /-- The next transaction of a request. -/
  | advance (i : Nat) (t : Tick)
  /-- A request that ends because the database has given up on its transaction. -/
  | fail (i : Nat)
  | authenticate (sid : String) (remembered : Bool) (now : Nat)

def Office.welcome (o : Office) (store : Store) (r : Option Request) : Office :=
  { store, inFlight := o.inFlight ++ r.toList }

/-- What is left of a request after its next transaction; an exception ends it. -/
def Request.advance (env : Env) (t : Tick) (st : Store) : Request → Option Request × Store
  | .login uid =>
      match openSession t uid st with
      | .ok st => (none, st)
      | .error _ => (none, st)
  | .sso uid =>
      match insertSession t uid st with
      | .ok st => (none, st)
      | .error _ => (none, st)
  | .edit e =>
      match e.todo with
      | [] => (none, st)
      | task :: rest =>
          match task.run env t e st with
          | .error _ => (none, st)
          | .ok (e, st) =>
              (if rest.isEmpty then none else some (.edit { e with todo := rest }), st)

def Office.step (env : Env) (o : Office) : Event → Office
  | .login user passwd t =>
      let (uid, st) := checkLogin env o.store user passwd t
      o.welcome st (uid.map .login)
  | .sso sub t => o.welcome o.store ((checkSSO o.store sub t).map .sso)
  | .edit editorID username args t =>
      match beginEdit env o.store editorID username args t with
      | (.error _, st) => o.welcome st none
      | (.ok e, st) => o.welcome st (some (.edit e))
  | .advance i t =>
      match o.inFlight[i]? with
      | none => o
      | some r =>
          let (left, store) := r.advance env t o.store
          { store, inFlight := o.inFlight.take i ++ left.toList ++ o.inFlight.drop (i + 1) }
  | .fail i => { o with inFlight := o.inFlight.eraseIdx i }
  | .authenticate sid remembered now =>
      { o with store := (authenticate env o.store sid remembered now).2 }

/-! ### Requests one after the other -/

structure History where
  store : Store
  /-- Who has been given which `SessionID`. -/
  issued : List (Nat × String) := []
  /-- Those that had been issued when the password of their account was set, and when. -/
  outdated : List ((Nat × String) × Nat) := []
  deriving DecidableEq, Repr

inductive Act
  | login (user passwd : String) (t : Tick)
  | sso (sub : String) (t : Tick)
  /-- By the user of a session. -/
  | logout (uid : Nat)
  | passreset (user resetkey password confirm : String) (t : Tick)
  | edit (editorID : Nat) (username : String) (args : Args) (t : Tick) (ticks : Task → Tick)
  | authenticate (sid : String) (remembered : Bool) (now : Nat)

/-- The store after the request. -/
def Act.answer (env : Env) (st : Store) : Act → Store
  | .login user passwd t =>
      match checkLogin env st user passwd t with
      | (none, st) => st
      | (some uid, st) =>
          match openSession t uid st with
          | .ok st => st
          | .error _ => st
  | .sso sub t =>
      match checkSSO st sub t with
      | none => st
      | some uid =>
          match insertSession t uid st with
          | .ok st => st
          | .error _ => st
  | .logout uid => st.deleteSessions uid
  | .passreset user resetkey password confirm t =>
      (passresetPost env st user resetkey password confirm t).2
  | .edit editorID username args t ticks =>
      (accountEditPost env st editorID username args t ticks).2
  | .authenticate sid remembered now => (Users.authenticate env st sid remembered now).2

/-- Whose password the request sets, and when. -/
def Act.sets (env : Env) (st : Store) : Act → Option (Nat × Nat)
  | .passreset user resetkey password confirm t =>
      match resetAccount env st user with
      | none => none
      | some dbUser =>
          if (passresetPost env st user resetkey password confirm t).1 =
              .redirect "/passreset?step=complete" then some (dbUser.id, timestamp t.now)
          else none
  | .edit editorID username args t ticks =>
      match beginEdit env st editorID username args t with
      | (.error _, _) => none
      | (.ok e, st) =>
          match runTasks env (ofClient t ticks) (tasks.takeWhile (· != .approve)) e st with
          | (.error _, _) => none
          | (.ok e, _) =>
              if e.changed then some (e.uid, timestamp (ticks .password).now) else none
  | _ => none

def Session.issue (s : Session) : Nat × String := (s.usersID, s.sessionID)

/-- The request is answered, and the history kept. -/
def History.step (env : Env) (h : History) (act : Act) : History :=
  let store := act.answer env h.store
  { store
    issued := h.issued ++
      (store.sessions.map Session.issue).filter fun issue =>
        !(h.store.sessions.map Session.issue).contains issue
    outdated := h.outdated ++
      match act.sets env h.store with
      | none => []
      | some (uid, now) => (h.issued.filter (·.1 == uid)).map (·, now) }

end Aurweb.Users
