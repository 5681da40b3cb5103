/-
Account edits, field by field: `aurweb/users/validate.py`, `aurweb/users/update.py` and
`account_edit_post` of `aurweb/routers/accounts.py`.

A field of a form is the string that was posted, and `none` when it was left out; each check
and each update then takes the default of its own parameter.  What an edit does once it has
been validated is a list of tasks, one for each transaction or look at the database, and an
exception in one of them ends it: what was committed before stays.  A password that is still
stored the old way is hashed again as soon as it has been checked, where the code leaves that
to the next commit.
-/
import Aurweb.NormalizedEmail

namespace Aurweb.Users

/-! ### Rows -/

/-- `Users`, with the columns nothing but the account pages reads. -/
structure Account extends User where
  hideEmail : Bool := false
  passwd : String := ""
  salt : String := ""
  resetKey : String := ""
  realName : String := ""
  langPreference : String := "en"
  timezone : String := "UTC"
  homepage : Option String := none
  ircNick : String := ""
  pgpKey : Option String := none
  lastLoginIPAddress : Option String := none
  commentNotify : Bool := true
  updateNotify : Bool := false
  ownershipNotify : Bool := true
  ssoAccountID : Option String := none
  hideDeletedComments : Bool := false
  deriving DecidableEq, Repr, Inhabited

structure SSHPubKey where
  userID : Nat
  fingerprint : String
  pubKey : String
  deriving DecidableEq, Repr, Inhabited

structure Session where
  usersID : Nat
  sessionID : String
  lastUpdateTS : Nat
  deriving DecidableEq, Repr, Inhabited

structure Store where
  accounts : List Account := []
  sshPubKeys : List SSHPubKey := []
  sessions : List Session := []
  bans : List String := []
  deriving DecidableEq, Repr, Inhabited

namespace Store

def account? (st : Store) (uid : Nat) : Option Account := st.accounts.find? (·.id == uid)

/-- `user.session`. -/
def session? (st : Store) (uid : Nat) : Option Session :=
  st.sessions.find? (·.usersID == uid)

/-- `UPDATE Users SET f WHERE ID = uid`. -/
def updateAccount (st : Store) (uid : Nat) (f : Account → Account) : Store :=
  { st with accounts := Table.update (·.id == uid) f st.accounts }

/-- `DELETE FROM Sessions WHERE UsersID = uid`. -/
def deleteSessions (st : Store) (uid : Nat) : Store :=
  { st with sessions := Table.delete (·.usersID == uid) st.sessions }

end Store

/-! ### What the pages call -/

/-- The configuration, and the predicates of `aurweb/util.py` and the libraries that a form is
checked with. -/
structure Env where
  cfg : Config
  lib : NormalizedEmail.Library
  /-- Python's `int`, which raises `ValueError` where this is `none`. -/
  int : String → Option Int
  /-- Whether a field declared as `bool` takes the value. -/
  bool : String → Bool
  validUsername : String → Bool
  usernameMinLen : Nat
  usernameMaxLen : Nat
  passwdMinLen : Nat
  /-- `_is_disposable_email`. -/
  isDisposableEmail : String → Bool
  validHomepage : String → Bool
  validPgpFingerprint : String → Bool
  /-- `parse_ssh_keys`; the set in the order it is gone through. -/
  parseSSHKeys : String → Option (List (String × String))
  getFingerprint : String → String
  supportedLanguages : List String
  supportedTimezones : List String
  captchaSalts : List String
  /-- `get_captcha_answer(get_captcha_token(·))`. -/
  captchaAnswer : Option String → String
  /-- `bcrypt.checkpw`, where a `ValueError` counts as a wrong password. -/
  checkpw : String → String → Bool
  /-- `bcrypt.hashpw`; the second argument is the salt. -/
  hashpw : String → String → String
  md5 : String → String
  loginTimeout : Nat
  persistentCookieTimeout : Nat

/-- What a transaction takes from outside: the time in microseconds, what is drawn at random,
and the address of the client. -/
structure Tick where
  now : Nat
  token : String := ""
  salt : String := ""
  sid : String := ""
  clientIP : String := ""
  deriving DecidableEq, Repr, Inhabited

def Account.setPasswd (passwd : String) (user : Account) : Account :=
  { user with passwd := passwd }

/-- `strtobool`. -/
def strtobool (env : Env) (value : Option String) : Bool :=
  match value with
  | none => false
  | some v => v != "" && ["y", "yes", "t", "true", "on", "1"].contains (env.lib.lower v)

/-- `User.valid_password`, with the object it leaves. -/
def validPassword (env : Env) (t : Tick) (user : Account) (password : String) : Bool × Account :=
  if env.checkpw password user.passwd then (true, user)
  else if user.salt != "" && env.md5 (user.salt ++ password) == user.passwd then
    (true, user.setPasswd (env.hashpw password t.salt))
  else (false, user)

/-- `valid_password`, and the object saved. -/
def Store.checkPassword (env : Env) (t : Tick) (st : Store) (user : Account)
    (password : String) : Bool × Store :=
  let (valid, checked) := validPassword env t user password
  (valid, st.updateAccount user.id (Account.setPasswd checked.passwd))

/-! ### The form -/

structure Args where
  U : Option String := none
  E : Option String := none
  H : Option String := none
  BE : Option String := none
  R : Option String := none
  HP : Option String := none
  I : Option String := none
  K : Option String := none
  J : Option String := none
  CN : Option String := none
  UN : Option String := none
  ON : Option String := none
  HDC : Option String := none
  S : Option String := none
  L : Option String := none
  TZ : Option String := none
  PK : Option String := none
  T : Option String := none
  P : Option String := none
  C : Option String := none
  passwd : Option String := none
  captcha : Option String := none
  captchaSalt : Option String := none
  deriving DecidableEq, Repr, Inhabited

/-- A field that is not a string is left out, empty or of its type, or the route is not
called. -/
def Args.wellTyped (env : Env) (args : Args) : Bool :=
  let fits := fun (p : String → Bool) (field : Option String) =>
    field.all fun value => value == "" || p value
  [args.J, args.S, args.CN, args.UN, args.ON, args.HDC].all (fits env.bool) &&
    fits (fun value => (env.int value).isSome) args.T

/-- `args["K"] = args.get("K", str()).replace(" ", "")`. -/
def Args.withoutBlanks (args : Args) : Args :=
  { args with K := some (String.ofList ((args.K.getD "").toList.filter (· != ' '))) }

/-! ### `aurweb/users/validate.py` -/

/-- What comes of a check that does not pass. -/
inductive Problem
  /-- `ValidationError`; a list inside the list is spliced in. -/
  | invalid (data : List String)
  | raised (exception : String)
  deriving DecidableEq, Repr

abbrev Check := Except Problem Unit

def Check.require (ok : Bool) (message : String) : Check :=
  if ok then .ok () else .error (.invalid [message])

/-- `in_use` and its like: some other account has it. -/
def Store.others (st : Store) (user : Account) : List Account :=
  st.accounts.filter (·.id != user.id)

section

variable (env : Env) (st : Store) (editor user : Account) (args : Args) (t : Tick)

def isBanned : Check :=
  if st.bans.contains t.clientIP then
    .error (.invalid ["Account registration has been disabled for your IP address, probably " ++
      "due to sustained spam attacks. Sorry for the inconvenience."])
  else .ok ()

def invalidUserPassword : Check :=
  .require (validPassword env t editor (args.passwd.getD "")).1 "Invalid password."

def invalidFields : Check :=
  .require (args.E.getD "" != "" && args.U.getD "" != "") "Missing a required field."

def invalidSuspendPermission : Check :=
  .require (editor.isElevated || strtobool env args.S == user.suspended)
    "You do not have permission to suspend accounts."

def invalidCaptcha : Check :=
  if args.captchaSalt.getD "" != "" && !env.captchaSalts.contains (args.captchaSalt.getD "") then
    .error (.invalid ["This CAPTCHA has expired. Please try again."])
  else
    .require (args.captcha.getD "" == "" ||
        args.captcha.getD "" == env.captchaAnswer args.captchaSalt)
      "The entered CAPTCHA answer is invalid."

def invalidUsername : Check :=
  if env.validUsername (args.U.getD "") then .ok ()
  else
    .error (.invalid ["The username is invalid.",
      s!"It must be between {env.usernameMinLen} and {env.usernameMaxLen} characters long",
      "Start and end with a letter or number",
      "Can contain only one period, underscore or hyphen."])

def invalidPassword : Check :=
  let P := args.P.getD ""
  let C := args.C.getD ""
  if P = "" then .ok ()
  else if P.length < env.passwdMinLen then
    .error (.invalid [s!"Your password must be at least {env.passwdMinLen} characters."])
  else if C = "" then .error (.invalid ["Please confirm your new password."])
  else .require (P == C) "Password fields do not match."

def invalidEmail : Check :=
  if (env.lib.validateEmail (args.E.getD "")).isNone then
    .error (.invalid ["The email address is invalid."])
  else
    .require (!env.isDisposableEmail (args.E.getD ""))
      "Disposable email addresses are not allowed."

/-- `bool(E) and E != user.Email`. -/
def emailChanged : Bool := args.E.getD "" != "" && args.E.getD "" != user.email

def emailInCooldown : Check :=
  .require (!(emailChanged user args && inCooldown env.cfg user.toUser t.now))
    ("A verification email was sent recently. You can change your email address again in a " ++
      "few minutes.")

def invalidBackupEmail : Check :=
  let BE := args.BE.getD ""
  if BE = "" then .ok ()
  else if (env.lib.validateEmail BE).isNone then
    .error (.invalid ["The backup email address is invalid."])
  else .require (!env.isDisposableEmail BE) "Disposable email addresses are not allowed."

def invalidHomepage : Check :=
  .require (args.HP.getD "" == "" || env.validHomepage (args.HP.getD ""))
    "The home page is invalid, please specify the full HTTP(s) URL."

def invalidPgpKey : Check :=
  .require (args.K.getD "" == "" || env.validPgpFingerprint (args.K.getD ""))
    ("The PGP key fingerprint is invalid. Only full fingerprints are accepted. Use " ++
      "`gpg --list-keys --fingerprint KEYID` to obtain a valid fingerprint.")

/-- `" ".join(key)`, and its fingerprint. -/
def fingerprintOf (key : String × String) : String := env.getFingerprint s!"{key.1} {key.2}"

def invalidSSHPubkey : Check :=
  let PK := args.PK.getD ""
  if PK = "" then .ok ()
  else
    match env.parseSSHKeys PK with
    | none => .error (.invalid ["The SSH public key is invalid."])
    | some keys =>
        match keys.find? fun key => st.sshPubKeys.any fun k =>
            k.userID != user.id && k.fingerprint == fingerprintOf env key with
        | none => .ok ()
        | some key =>
            .error (.invalid ["The SSH public key, <strong>" ++ fingerprintOf env key ++
              "</strong>, is already in use."])

def invalidLanguage : Check :=
  .require (args.L.getD "" == "" || env.supportedLanguages.contains (args.L.getD ""))
    "Language is not currently supported."

def invalidTimezone : Check :=
  .require (args.TZ.getD "" == "" || env.supportedTimezones.contains (args.TZ.getD ""))
    "Timezone is not currently supported."

def usernameTaken : Check :=
  let U := args.U.getD ""
  .require (!(st.others user).any fun u => env.cfg.sameName u.username U)
    ("The username, <strong>" ++ U ++ "</strong>, is already in use.")

/-- `email_taken_error`. -/
def emailTakenError : String :=
  "The address, <strong>" ++ args.E.getD "" ++ "</strong>, is already in use."

def emailTaken : Check :=
  let E := args.E.getD ""
  let normalized := NormalizedEmail.normalizeEmail env.lib E
  let others := st.others user
  let inUse := others.any (fun u => NormalizedEmail.collide env.cfg u.normalizedEmail
      (some normalized)) ||
    others.any fun u => u.normalizedEmail.isNone &&
      NormalizedEmail.normalizeEmail env.lib u.email == normalized
  .require (E == user.email || !inUse) (emailTakenError args)

/-- The account type with this `ID`. -/
def accountTypeOf (T : Int) : Option AccountType :=
  [.user, .packageMaintainer, .developer, .packageMaintainerAndDev].find?
    fun type : AccountType => decide (T = (type.id : Int))

/-- `ACCOUNT_TYPE_NAME`. -/
def accountTypeName : AccountType → String
  | .user => "User"
  | .packageMaintainer => "Package Maintainer"
  | .developer => "Developer"
  | .packageMaintainerAndDev => "Package Maintainer & Developer"

def invalidAccountType : Check :=
  match args.T with
  | none => .ok ()
  | some raw =>
      match env.int raw with
      | none => .error (.raised "ValueError")
      | some T =>
          if T = (user.accountType.id : Int) then .ok ()
          else
            match accountTypeOf T with
            | none => .error (.invalid ["Invalid account type provided."])
            | some type =>
                if !hasCredential editor.toUser .accountChangeType [] then
                  .error (.invalid ["You do not have permission to change account types."])
                else
                  .require (!decide ((editor.accountType.id : Int) < T))
                    ("You do not have permission to change this user's account type to " ++
                      accountTypeName type ++ ".")

/-- `checks`. -/
def checks : List Check :=
  [isBanned st t, invalidUserPassword env editor args t, invalidFields args,
    invalidSuspendPermission env editor user args, invalidCaptcha env args,
    invalidUsername env args, invalidPassword env args, invalidEmail env args,
    emailInCooldown env user args t, invalidBackupEmail env args, invalidHomepage env args,
    invalidPgpKey env args, invalidSSHPubkey env st user args, invalidLanguage env args,
    invalidTimezone env args, usernameTaken env st user args, emailTaken env st user args,
    invalidAccountType env editor user args]

/-- The first check that does not pass. -/
def firstProblem : List Check → Check
  | [] => .ok ()
  | .ok () :: checks => firstProblem checks
  | .error e :: _ => .error e

/-- `process_account_form`. -/
def processAccountForm : Check := firstProblem (checks env st editor user args t)

end

/-! ### `aurweb/users/update.py` -/

/-- What the updates do, in order; looks at the database that decide about a later transaction
are tasks of their own. -/
inductive Task
  | simple
  | language
  | timezone
  | sshPubkey
  | accountType
  | password
  /-- `User.login` in `password`, up to its transaction. -/
  | approve
  /-- The transaction of `User.login`. -/
  | login
  /-- `S and user.session`. -/
  | suspend
  /-- The transaction of `suspend`. -/
  | deleteSessions
  deriving DecidableEq, Repr

/-- `updates`. -/
def tasks : List Task :=
  [.simple, .language, .timezone, .sshPubkey, .accountType, .password, .approve, .login,
    .suspend, .deleteSessions]

/-- An edit that has been validated. -/
structure Edit where
  editorID : Nat
  uid : Nat
  args : Args
  /-- The account as `db.refresh` has loaded it. -/
  loaded : Account
  /-- A new password has been set. -/
  changed : Bool := false
  /-- `User.login` has got to its transaction. -/
  approved : Bool := false
  /-- `suspend` has found a session. -/
  found : Bool := false
  /-- What is still to be done. -/
  todo : List Task := tasks
  deriving DecidableEq, Repr

/-- What `simple` makes of the object. -/
def simpleObject (env : Env) (t : Tick) (args : Args) (user : Account) : Account :=
  let changed := emailChanged user args
  let email := if args.E.getD "" = "" then user.email else args.E.getD ""
  let issued := user.toUser.issue env.cfg t.token t.now
  { user with
    username := if args.U.getD "" = "" then user.username else args.U.getD ""
    email := email
    normalizedEmail := NormalizedEmail.syncNormalizedEmail env.lib user.toUser email
    emailVerified := if changed then false else user.emailVerified
    emailVerificationToken :=
      if changed then issued.emailVerificationToken else user.emailVerificationToken
    emailVerificationExpiry :=
      if changed then issued.emailVerificationExpiry else user.emailVerificationExpiry
    hideEmail := strtobool env args.H
    backupEmail := some (args.BE.getD "")
    realName := args.R.getD ""
    homepage := some (args.HP.getD "")
    ircNick := args.I.getD ""
    pgpKey := some (args.K.getD "")
    suspended := strtobool env args.S
    inactivityTS := if strtobool env args.J then timestamp t.now else 0
    commentNotify := strtobool env args.CN
    updateNotify := strtobool env args.UN
    ownershipNotify := strtobool env args.ON
    hideDeletedComments := strtobool env args.HDC }

open NormalizedEmail (written) in
/-- The `UPDATE` of the object: the columns that are no longer as they were loaded. -/
def flush (loaded user row : Account) : Account :=
  { row with
    username := written loaded.username user.username row.username
    email := written loaded.email user.email row.email
    normalizedEmail := written loaded.normalizedEmail user.normalizedEmail row.normalizedEmail
    emailVerified := written loaded.emailVerified user.emailVerified row.emailVerified
    emailVerificationToken := written loaded.emailVerificationToken user.emailVerificationToken
      row.emailVerificationToken
    emailVerificationExpiry := written loaded.emailVerificationExpiry
      user.emailVerificationExpiry row.emailVerificationExpiry
    hideEmail := written loaded.hideEmail user.hideEmail row.hideEmail
    backupEmail := written loaded.backupEmail user.backupEmail row.backupEmail
    realName := written loaded.realName user.realName row.realName
    homepage := written loaded.homepage user.homepage row.homepage
    ircNick := written loaded.ircNick user.ircNick row.ircNick
    pgpKey := written loaded.pgpKey user.pgpKey row.pgpKey
    suspended := written loaded.suspended user.suspended row.suspended
    inactivityTS := written loaded.inactivityTS user.inactivityTS row.inactivityTS
    commentNotify := written loaded.commentNotify user.commentNotify row.commentNotify
    updateNotify := written loaded.updateNotify user.updateNotify row.updateNotify
    ownershipNotify := written loaded.ownershipNotify user.ownershipNotify row.ownershipNotify
    hideDeletedComments :=
      written loaded.hideDeletedComments user.hideDeletedComments row.hideDeletedComments }

/-- The unique indices of `Users`. -/
def indexed (env : Env) (st : Store) (row : Account) : Bool :=
  (st.others row).any fun u =>
    env.cfg.sameName u.username row.username || env.cfg.sameName u.email row.email ||
      NormalizedEmail.collide env.cfg u.normalizedEmail row.normalizedEmail

/-- The `IntegrityError` of such a row; the index on `NormalizedEmail` is the youngest, and is
named when the others have nothing to say. -/
def indexError (env : Env) (st : Store) (row : Account) : String :=
  if (st.others row).any fun u =>
      env.cfg.sameName u.username row.username || env.cfg.sameName u.email row.email then
    "IntegrityError"
  else "IntegrityError: UsersNormalizedEmail"

/-- The keys of `ssh_pubkey` that the account does not have, as rows. -/
def missingKeys (env : Env) (st : Store) (uid : Nat) (keys : List (String × String)) :
    List SSHPubKey :=
  (keys.filter fun key => !st.sshPubKeys.any fun k =>
    k.userID == uid && k.fingerprint == fingerprintOf env key).map fun key =>
      { userID := uid, fingerprint := fingerprintOf env key, pubKey := s!"{key.1} {key.2}" }

/-- The transaction of `ssh_pubkey`; the primary key is the fingerprint. -/
def updateSSHPubkey (env : Env) (uid : Nat) (PK : String) (st : Store) : Except String Store :=
  if PK = "" then
    .ok { st with sshPubKeys := Table.delete (·.userID == uid) st.sshPubKeys }
  else
    match env.parseSSHKeys PK with
    | none => .error "ValueError"
    | some keys =>
        let kept := Table.delete (fun k => k.userID == uid &&
          !keys.any fun key => k.fingerprint == fingerprintOf env key) st.sshPubKeys
        let rows := kept ++ missingKeys env st uid keys
        if (rows.map (·.fingerprint)).Nodup then .ok { st with sshPubKeys := rows }
        else .error "IntegrityError"

/-- A row that is there; it keeps its `SessionID` unless it is older than this second. -/
def Session.renew (t : Tick) (s : Session) : Session :=
  { s with
    sessionID :=
      if s.lastUpdateTS != 0 && decide (s.lastUpdateTS < timestamp t.now) then t.sid
      else s.sessionID
    lastUpdateTS := timestamp t.now }

/-- `Sessions` after a login: an account has one row at most. -/
def sessionRows (t : Tick) (uid : Nat) (st : Store) : List Session :=
  match st.session? uid with
  | none => st.sessions ++ [Session.mk uid t.sid (timestamp t.now)]
  | some _ => Table.update (·.usersID == uid) (Session.renew t) st.sessions

/-- What a login writes to the row of the account. -/
def Account.loggedIn (t : Tick) (user : Account) : Account :=
  { user with
    lastLogin := timestamp t.now, lastLoginIPAddress := some t.clientIP, inactivityTS := 0 }

/-- The transaction of `User.login`; no two rows have the same `SessionID`. -/
def openSession (t : Tick) (uid : Nat) (st : Store) : Except String Store :=
  if (st.account? uid).isNone then .error "StaleDataError"
  else if ((sessionRows t uid st).map (·.sessionID)).Nodup then
    .ok { st.updateAccount uid (Account.loggedIn t) with sessions := sessionRows t uid st }
  else .error "IntegrityError"

/-- `_login_approved`, and the password. -/
def loginApproved (env : Env) (t : Tick) (user : Account) (password : String) (st : Store) :
    Bool × Store :=
  if st.bans.contains t.clientIP || user.suspended then (false, st)
  else st.checkPassword env t user password

/-- One task, with what the later ones have to know; an account that is gone is an
exception. -/
def Task.run (env : Env) (t : Tick) (e : Edit) (st : Store) (task : Task) :
    Except String (Edit × Store) :=
  match st.account? e.uid with
  | none => .error "ObjectDeletedError"
  | some user =>
      match task with
      | .simple =>
          let row := flush e.loaded (simpleObject env t e.args e.loaded) user
          if indexed env st row then .error (indexError env st row)
          else .ok (e, st.updateAccount e.uid fun _ => row)
      | .language =>
          let L := e.args.L.getD ""
          if L = "" then .ok (e, st)
          else .ok (e, st.updateAccount e.uid fun u => { u with langPreference := L })
      | .timezone =>
          let TZ := e.args.TZ.getD ""
          if TZ = "" then .ok (e, st)
          else .ok (e, st.updateAccount e.uid fun u => { u with timezone := TZ })
      | .sshPubkey => (updateSSHPubkey env e.uid (e.args.PK.getD "") st).map fun st => (e, st)
      | .accountType =>
          match e.args.T with
          | none => .ok (e, st)
          | some raw =>
              match env.int raw with
              | none => .error "ValueError"
              | some T =>
                  match accountTypeOf T with
                  | none => .error "IntegrityError"
                  | some type =>
                      .ok (e, st.updateAccount e.uid fun u => { u with accountType := type })
      | .password =>
          let P := e.args.P.getD ""
          if P = "" then .ok (e, st)
          else
            match st.checkPassword env t user P with
            | (true, st) => .ok (e, st)
            | (false, st) =>
                .ok ({ e with changed := true },
                  st.updateAccount e.uid (Account.setPasswd (env.hashpw P t.salt)))
      | .approve =>
          if e.changed && e.uid == e.editorID then
            let (approved, st) := loginApproved env t user (e.args.P.getD "") st
            .ok ({ e with approved := approved }, st)
          else .ok (e, st)
      | .login =>
          if e.approved then (openSession t e.uid st).map fun st => (e, st) else .ok (e, st)
      | .suspend =>
          .ok ({ e with found := e.args.S.getD "" != "" && (st.session? e.uid).isSome }, st)
      | .deleteSessions => .ok (e, if e.found then st.deleteSessions e.uid else st)

/-- Tasks one after the other, each with a tick of its own. -/
def runTasks (env : Env) (ticks : Task → Tick) : List Task → Edit → Store →
    Except String Edit × Store
  | [], e, st => (.ok e, st)
  | task :: rest, e, st =>
      match task.run env (ticks task) e st with
      | .error x => (.error x, st)
      | .ok (e, st) => runTasks env ticks rest e st

/-! ### `account_edit_post` -/

def accountNamed (env : Env) (st : Store) (username : String) : Option Account :=
  st.accounts.find? fun u => env.cfg.sameName u.username username

/-- The route up to its updates. -/
def beginEdit (env : Env) (st : Store) (editorID : Nat) (username : String) (args : Args)
    (t : Tick) : Except Response Edit × Store :=
  if !args.wellTyped env then (.error (.httpException 422 "Unprocessable Entity"), st)
  else
    match st.account? editorID with
    | none => (.error (.redirect "/login"), st)
    | some editor =>
        match accountNamed env st username with
        | none => (.error (.httpException 404 "Not Found"), st)
        | some user =>
            if !canEditUser editor.toUser user.toUser then
              (.error (.redirect s!"/account/{user.username}"), st)
            else
              let args := args.withoutBlanks
              let problem := processAccountForm env st editor user args t
              let checked :=
                if st.bans.contains t.clientIP then st
                else (st.checkPassword env t editor (args.passwd.getD "")).2
              match problem with
              | .error (.raised exception) => (.error (.serverError exception), checked)
              | .error (.invalid errors) =>
                  (.error (.render 400
                    (if args.passwd.getD "" = "" then ["Invalid password."] else errors)),
                    checked)
              | .ok () =>
                  if args.passwd.getD "" = "" then
                    (.error (.render 400 ["Invalid password."]), checked)
                  else (.ok { editorID, uid := user.id, args, loaded := user }, checked)

/-- The ticks of one request: they differ in everything but the client. -/
def ofClient (t : Tick) (ticks : Task → Tick) (task : Task) : Tick :=
  { ticks task with clientIP := t.clientIP }

/-- What the route makes of an exception in one of its updates. -/
def updateError (args : Args) (exception : String) : Response :=
  if exception = "IntegrityError: UsersNormalizedEmail" then .render 400 [emailTakenError args]
  else .serverError exception

/-- `account_edit_post`. -/
def accountEditPost (env : Env) (st : Store) (editorID : Nat) (username : String) (args : Args)
    (t : Tick) (ticks : Task → Tick) : Response × Store :=
  match beginEdit env st editorID username args t with
  | (.error r, st) => (r, st)
  | (.ok e, st) =>
      match runTasks env (ofClient t ticks) tasks e st with
      | (.ok _, st) => (.render 200 [], st)
      | (.error exception, st) => (updateError e.args exception, st)

end Aurweb.Users
