/-
Reset keys: `account_register_post` and `passreset_post` of `aurweb/routers/accounts.py`, and
what else becomes of an account in between.

A request is answered at a time.  The log keeps, the newest first, which keys have been issued
and used and whose e-mail address and password have been changed; nothing of it is stored by the
site, which knows the key of an account alone.
-/
import Aurweb.Sessions

namespace Aurweb.Users

/-! ### `account_register_post` -/

/-- `AnonymousUser`; its account type is none of those in the table, and what asks for it is
`guestAccountType`. -/
def anonymous : Account where
  id := 0
  accountType := .user
  suspended := false
  emailVerified := false
  emailVerificationToken := none
  emailVerificationExpiry := none
  username := "N/A"
  email := "N/A"
  lastLogin := 0
  lastSSHLogin := 0
  lastSSHLoginIPAddress := none
  inactivityTS := 0
  registrationTS := 0

/-- `invalid_account_type`, where `AccountTypeID` is 0 and there are no credentials. -/
def guestAccountType (env : Env) (args : Args) : Check :=
  match args.T with
  | none => .ok ()
  | some raw =>
      match env.int raw with
      | none => .error (.raised "ValueError")
      | some T =>
          if T = 0 then .ok ()
          else if (accountTypeOf T).isNone then
            .error (.invalid ["Invalid account type provided."])
          else .error (.invalid ["You do not have permission to change account types."])

/-- `process_account_form` for `AnonymousUser`, with the checks that apply to it. -/
def processGuestForm (env : Env) (st : Store) (args : Args) (t : Tick) : Check :=
  firstProblem
    [isBanned st t, invalidFields args, invalidSuspendPermission env anonymous anonymous args,
      invalidCaptcha env args, invalidUsername env args, invalidPassword env args,
      invalidEmail env args, invalidBackupEmail env args, invalidHomepage env args,
      invalidPgpKey env args, invalidSSHPubkey env st anonymous args, invalidLanguage env args,
      invalidTimezone env args, usernameTaken env st anonymous args,
      emailTaken env st anonymous args, guestAccountType env args]

/-- A field that is left out or empty takes its default. -/
def orDefault (field : Option String) (default : String) : String :=
  if field.getD "" = "" then default else field.getD ""

/-- The row that is created; the tick brings the reset key, and `token` is that of
`verify.issue`. -/
def registeredAccount (env : Env) (id : Nat) (args : Args) (t : Tick) (token : String) :
    Account where
  id := id
  accountType := .user
  suspended := false
  emailVerified := false
  emailVerificationToken := some token
  emailVerificationExpiry := some (timestamp t.now + env.cfg.emailVerificationTTL)
  username := args.U.getD ""
  email := args.E.getD ""
  backupEmail := args.BE.filter (· != "")
  normalizedEmail := some (NormalizedEmail.normalizeEmail env.lib (args.E.getD ""))
  lastLogin := 0
  lastSSHLogin := 0
  lastSSHLoginIPAddress := none
  inactivityTS := 0
  registrationTS := timestamp t.now
  hideEmail := args.H == some "on"
  passwd := ""
  resetKey := t.token
  realName := args.R.getD ""
  homepage := args.HP.filter (· != "")
  ircNick := args.I.getD ""
  pgpKey := some (args.K.getD "")
  langPreference := orDefault args.L "en"
  timezone := orDefault args.TZ "UTC"
  commentNotify := strtobool env args.CN
  updateNotify := strtobool env args.UN
  ownershipNotify := strtobool env args.ON
  hideDeletedComments := strtobool env args.HDC

/-- The `SSHPubKeys` of a registration; `none` where it raises. -/
def registeredKeys (env : Env) (id : Nat) (args : Args) : Option (List SSHPubKey) :=
  if args.PK.getD "" = "" then some []
  else
    (env.parseSSHKeys (args.PK.getD "")).map fun keys =>
      keys.map fun key =>
        { userID := id, fingerprint := fingerprintOf env key, pubKey := s!"{key.1} {key.2}" }

/-- `account_register_post`, and the store unless it is refused. -/
def accountRegisterPost (env : Env) (st : Store) (id : Nat) (args : Args) (t : Tick)
    (token : String) : Except Response Store :=
  let args := args.withoutBlanks
  let fits := fun field : Option String => field.all fun value => value == "" || env.bool value
  if !([args.CN, args.UN, args.ON, args.HDC].all fits) || args.captchaSalt.getD "" = "" then
    .error (.httpException 422 "Unprocessable Entity")
  else
    match processGuestForm env st args t with
    | .error (.raised exception) => .error (.serverError exception)
    | .error (.invalid errors) => .error (.render 400 errors)
    | .ok () =>
        if args.captcha.getD "" = "" then .error (.render 400 ["The CAPTCHA is missing."])
        else
          let row := registeredAccount env id args t token
          if st.accounts.any fun u => env.cfg.sameName u.username row.username ||
              env.cfg.sameName u.email row.email then
            .error (.serverError "IntegrityError")
          else if st.accounts.any fun u =>
              NormalizedEmail.collide env.cfg u.normalizedEmail row.normalizedEmail then
            .error (.render 400
              ["The address, <strong>" ++ row.email ++ "</strong>, is already in use."])
          else
            match registeredKeys env id args with
            | none => .error (.serverError "ValueError")
            | some keys =>
                if ((st.sshPubKeys ++ keys).map (·.fingerprint)).Nodup then
                  .ok { st with
                    accounts := st.accounts ++ [row], sshPubKeys := st.sshPubKeys ++ keys }
                else .error (.serverError "IntegrityError")

/-! ### What happens to the keys of an account -/

inductive Record
  | issued (uid : Nat) (key : String)
  | used (uid : Nat) (key : String)
  | email (uid : Nat)
  | password (uid : Nat)
  deriving DecidableEq, Repr

def Record.uid : Record → Nat
  | issued uid _ | used uid _ | email uid | password uid => uid

def Record.uses (key : String) : Record → Bool
  | used _ key' => key' == key
  | _ => false

/-- Whose address is another one in the second store. -/
def addressChanges (st st' : Store) : List Nat :=
  (st.accounts.filter fun u => (st'.account? u.id).any fun u' => u'.email != u.email).map (·.id)

structure KeyHistory where
  store : Store
  /-- `AUTO_INCREMENT` of `Users`. -/
  nextID : Nat := 1
  log : List Record := []
  deriving DecidableEq, Repr

inductive Visit
  | register (args : Args) (t : Tick) (token : String)
  | act (act : Act)

/-- What a request has done about keys. -/
def Act.records (env : Env) (st : Store) (act : Act) : List Record :=
  match act with
  | .passreset user resetkey password confirm t =>
      match resetAccount env st user with
      | none => []
      | some dbUser =>
          if resetkey = "" then [.issued dbUser.id t.token]
          else if (passresetPost env st user resetkey password confirm t).1 =
              .redirect "/passreset?step=complete" then
            [.used dbUser.id resetkey, .password dbUser.id]
          else []
  | .edit .. =>
      (addressChanges st (act.answer env st)).map .email ++
        (act.sets env st).toList.map fun set => .password set.1
  | _ => []

def KeyHistory.step (env : Env) (h : KeyHistory) : Visit → KeyHistory
  | .register args t token =>
      match accountRegisterPost env h.store h.nextID args t token with
      | .error _ => h
      | .ok store =>
          { store, nextID := h.nextID + 1, log := .issued h.nextID t.token :: h.log }
  | .act act =>
      { h with store := act.answer env h.store, log := act.records env h.store ++ h.log }

end Aurweb.Users
