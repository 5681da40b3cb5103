/-
Canonical addresses: `NormalizedEmail`, the migration that introduced it, and the two
requests that write it since.

`normalize_email` of `aurweb/util.py`, `email_in_use` of `aurweb/users/validate.py`,
`_sync_normalized_email` of `aurweb/models/user.py`, `simple` of `aurweb/users/update.py` and
the migration `b7c419f0a2d1`.  A registration and an edit are validated and then committed;
other requests commit in between.  An edit is committed by the object it was validated on:
the session writes the columns that differ from what it has loaded, and no others.
-/
import Aurweb.Site
import Aurweb.Verification
import Mathlib.Data.List.MinMax
import Mathlib.Data.Prod.Lex

namespace Aurweb.NormalizedEmail

/-! ### `normalize_email` -/

/-- What `normalize_email` is made of. -/
structure Library where
  /-- `validate_email(email, check_deliverability=False)`: `local_part` and `ascii_domain`. -/
  validateEmail : String → Option (String × String)
  /-- `str.lower`. -/
  lower : String → String

/-- `EMAIL_PROVIDER_RULES`: whether to strip dots, and the canonical domain. -/
def emailProviderRules : String → Option (Bool × Option String)
  | "gmail.com" | "googlemail.com" => some (true, some "gmail.com")
  | "icloud.com" | "me.com" | "mac.com" => some (false, some "icloud.com")
  | "protonmail.com" | "proton.me" | "pm.me" => some (false, some "proton.me")
  | "outlook.com" | "hotmail.com" | "live.com" | "msn.com" | "yandex.com" | "yandex.ru" | "ya.ru"
  | "zoho.com" | "zohomail.com" | "fastmail.com" | "fastmail.fm" => some (false, none)
  | _ => none

/-- `local.split("+", 1)[0] or local`. -/
def stripTag (localPart : String) : String :=
  let base := localPart.toList.takeWhile (· != '+')
  if base.isEmpty then localPart else String.ofList base

/-- `local.replace(".", "")`. -/
def removeDots (localPart : String) : String :=
  String.ofList (localPart.toList.filter (· != '.'))

def normalizeEmail (lib : Library) (email : String) : String :=
  match lib.validateEmail email with
  | none => lib.lower email
  | some (localPart, domain) =>
      match emailProviderRules domain with
      | none => lib.lower localPart ++ "@" ++ domain
      | some (stripDots, canonicalDomain) =>
          let stripped := stripTag localPart
          let stripped := if stripDots then removeDots stripped else stripped
          lib.lower stripped ++ "@" ++ canonicalDomain.getD domain

/-! ### The migration -/

/-- `_delete_spam_accounts`; `content_columns` are those of `owns_content`. -/
def deleteSpamAccounts (db : Db) : Db :=
  AccountMaint.deleteUsers db
    ((db.users.filter fun u => u.suspended && !ownsContent db u.id).map (·.id))

/-- `_backfill`. -/
def backfill (lib : Library) (db : Db) : Db :=
  { db with
    users := db.users.map fun u =>
      { u with normalizedEmail := some (normalizeEmail lib u.email) } }

/-- Two values the index takes for one; `NULL` is like nothing. -/
def collide (cfg : Config) (a b : Option String) : Bool :=
  match a, b with
  | some a, some b => cfg.sameName a b
  | _, _ => false

/-- The rows of `Users` that have the row's `NormalizedEmail`. -/
def members (cfg : Config) (db : Db) (u : User) : List User :=
  db.users.filter fun m => collide cfg m.normalizedEmail u.normalizedEmail

/-- `m.EmailVerified or m.HasContent`. -/
def hasClaim (db : Db) (m : User) : Bool := m.emailVerified || ownsContent db m.id

/-- The key `min` goes by. -/
def keeperKey (lib : Library) (db : Db) (m : User) : Bool ×ₗ Bool ×ₗ Bool ×ₗ Nat :=
  toLex (m.suspended, toLex (!hasClaim db m,
    toLex (some (lib.lower m.email) != m.normalizedEmail.map lib.lower, m.id)))

/-- `keeper_id`. -/
def keeperID (lib : Library) (db : Db) (group : List User) : Option Nat :=
  if group.any (hasClaim db) then (group.argmin (keeperKey lib db)).map (·.id) else none

/-- `_null_duplicates`. -/
def nullDuplicates (cfg : Config) (lib : Library) (db : Db) : Db :=
  { db with
    users := db.users.map fun u =>
      let group := members cfg db u
      if 1 < group.length && keeperID lib db group != some u.id then
        { u with normalizedEmail := none }
      else u }

/-- `upgrade`; the index can be created afterwards. -/
def upgrade (cfg : Config) (lib : Library) (db : Db) : Db :=
  nullDuplicates cfg lib (backfill lib (deleteSpamAccounts db))

/-! ### Validation -/

/-- `email_in_use`, for a user of that id and address. -/
def emailInUse (cfg : Config) (lib : Library) (db : Db) (uid : Nat) (current email : String) :
    Bool :=
  if email == current then false
  else
    let normalized := normalizeEmail lib email
    let others := db.users.filter (·.id != uid)
    others.any (fun u => collide cfg u.normalizedEmail (some normalized)) ||
      others.any fun u => u.normalizedEmail.isNone && normalizeEmail lib u.email == normalized

/-- The checks of `process_account_form` on user name and address. -/
def validForm (cfg : Config) (lib : Library) (db : Db) (uid : Option Nat) (current : String)
    (username email : String) : Bool :=
  username != "" && email != "" && (lib.validateEmail email).isSome &&
    !usernameInUse cfg db uid username && !emailInUse cfg lib db (uid.getD 0) current email

/-- A form that has been found valid. -/
inductive Submission
  | register (username email : String)
  /-- With the account as it was loaded. -/
  | edit (loaded : User) (username : String) (form : AccountForm)
  deriving DecidableEq, Repr

/-- Registration is open to nobody but `AnonymousUser`, whose address is `"N/A"`. -/
def checkRegister (cfg : Config) (lib : Library) (db : Db) (username email : String) :
    Option Submission :=
  if validForm cfg lib db none "N/A" username email then some (.register username email) else none

def checkEdit (cfg : Config) (lib : Library) (db : Db) (editorID uid : Nat) (username : String)
    (form : AccountForm) (now : Nat) : Option Submission :=
  match Verification.editing cfg db editorID uid form now with
  | none => none
  | some user =>
      if validForm cfg lib db (some user.id) user.email username form.email then
        some (.edit user username form)
      else none

/-! ### Commit -/

/-- `_sync_normalized_email`: `NormalizedEmail` once `value` has been assigned to `Email`. -/
def syncNormalizedEmail (lib : Library) (user : User) (value : String) : Option String :=
  if value != user.email then some (if value = "" then value else normalizeEmail lib value)
  else user.normalizedEmail

/-- `simple`: what it makes of the object. -/
def simple (cfg : Config) (lib : Library) (username : String) (form : AccountForm)
    (token : String) (now : Nat) (user : User) : User :=
  let email := if form.email = "" then user.email else form.email
  { user.edited cfg form token now with
    username := if username = "" then user.username else username
    normalizedEmail := syncNormalizedEmail lib user email }

/-- A column of an `UPDATE`: it is written if its value is not the one that was loaded. -/
def written {α : Type} [DecidableEq α] (loaded value stored : α) : α :=
  if value = loaded then stored else value

/-- The `UPDATE` of a changed object, on the row as it is stored by now. -/
def flush (loaded user row : User) : User :=
  { row with
    accountType := written loaded.accountType user.accountType row.accountType
    suspended := written loaded.suspended user.suspended row.suspended
    emailVerified := written loaded.emailVerified user.emailVerified row.emailVerified
    emailVerificationToken :=
      written loaded.emailVerificationToken user.emailVerificationToken row.emailVerificationToken
    emailVerificationExpiry := written loaded.emailVerificationExpiry user.emailVerificationExpiry
      row.emailVerificationExpiry
    username := written loaded.username user.username row.username
    email := written loaded.email user.email row.email
    normalizedEmail := written loaded.normalizedEmail user.normalizedEmail row.normalizedEmail }

/-- The unique indices of `Users` turn the row away. -/
def indexed (cfg : Config) (db : Db) (row : User) : Bool :=
  db.users.any fun u => u.id != row.id &&
    (cfg.sameName u.username row.username || cfg.sameName u.email row.email ||
      collide cfg u.normalizedEmail row.normalizedEmail)

/-- The row a registration inserts. -/
def registered (cfg : Config) (lib : Library) (db : Db) (username email token : String)
    (now : Nat) : User :=
  let user : User :=
    { id := db.nextID, accountType := .user, suspended := false, emailVerified := false
      emailVerificationToken := none, emailVerificationExpiry := none
      username, email, lastLogin := 0, lastSSHLogin := 0, lastSSHLoginIPAddress := none
      inactivityTS := 0, registrationTS := timestamp now
      normalizedEmail := some (if email = "" then email else normalizeEmail lib email) }
  user.issue cfg token now

/-- The transaction; an `IntegrityError` rolls it back. -/
def commit (cfg : Config) (lib : Library) (db : Db) (token : String) (now : Nat) :
    Submission → Db
  | .register username email =>
      let row := registered cfg lib db username email token now
      if indexed cfg db row then db
      else { db with users := db.users ++ [row], nextID := db.nextID + 1 }
  | .edit loaded username form =>
      match db.user? loaded.id with
      | none => db
      | some stored =>
          let row := flush loaded (simple cfg lib username form token now loaded) stored
          if indexed cfg db row then db else updateUser db loaded.id fun _ => row

/-! ### The system -/

structure Desk where
  db : Db
  /-- The forms that have been validated but not committed. -/
  inFlight : List Submission

inductive Event
  | register (username email : String)
  | edit (editorID uid : Nat) (username : String) (form : AccountForm) (now : Nat)
  | commit (i : Nat) (token : String) (now : Nat)
  /-- A request that ends without a commit. -/
  | abandon (i : Nat)

def Desk.submit (s : Desk) (form : Option Submission) : Desk :=
  { s with inFlight := s.inFlight ++ form.toList }

def step (cfg : Config) (lib : Library) (s : Desk) : Event → Desk
  | .register username email => s.submit (checkRegister cfg lib s.db username email)
  | .edit editorID uid username form now =>
      s.submit (checkEdit cfg lib s.db editorID uid username form now)
  | .commit i token now =>
      match s.inFlight[i]? with
      | none => s
      | some form =>
          { db := commit cfg lib s.db token now form, inFlight := s.inFlight.eraseIdx i }
  | .abandon i => { s with inFlight := s.inFlight.eraseIdx i }

/-- Right after the migration. -/
def Desk.start (cfg : Config) (lib : Library) (db : Db) : Desk where
  db := upgrade cfg lib db
  inFlight := []

end Aurweb.NormalizedEmail
