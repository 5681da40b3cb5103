/-
The SSH interface: `aurweb/git/serve.py`, with the part of `aurweb/git/auth.py` that says
who a session belongs to.

A command works on connections of its own; what it has not committed when it raises is
gone.  `serve` ends by handing over to another program for a push, a clone and a restore,
and says here which one.  Ids start at 1, so the tests for an id of 0 are left out.
-/
import Aurweb.Routers

namespace Aurweb.GitServe

/-! ### `aurweb/exceptions.py` -/

inductive AurwebException
  | maintenance
  | banned
  | emailNotVerified
  | permissionDenied (user : String)
  | orphanPackageBase (pkgbase : String)
  | brokenUpdateHook
  | invalidPackageBase (pkgbase : String)
  | invalidRepositoryName (pkgbase : String)
  | packageBaseExists (pkgbase : String)
  | invalidComment (comment : String)
  | alreadyVoted (pkgbase : String)
  | notVoted (pkgbase : String)
  | invalidArguments (message : String)
  deriving DecidableEq, Repr

/-- How a command ends when it does not end well. -/
inductive Failure
  | exception (e : AurwebException)
  | die (message : String)
  | raised (exception : String)
  deriving DecidableEq, Repr

/-- What `serve` hands over to. -/
inductive Handover
  | nothing
  | uploadPack (pkgbase : String)
  | receivePack (pkgbase : String)
  /-- `git_update_cmd restore`. -/
  | restore (pkgbase : String)
  deriving DecidableEq, Repr

abbrev Result := Except Failure Handover × Db

def finished (db : Db) : Result := (.ok .nothing, db)

def failed (db : Db) (e : AurwebException) : Result := (.error (.exception e), db)

/-- The environment of a session. -/
structure Session where
  /-- `AUR_USER`. -/
  user : String
  /-- `AUR_PRIVILEGED`. -/
  privileged : Bool
  remoteAddr : String
  now : Nat
  /-- `os.access(git_update_cmd, os.R_OK | os.X_OK)`. -/
  hookInstalled : Bool
  deriving DecidableEq, Repr

/-- `AUR_USER` and `AUR_PRIVILEGED` as `git/auth.py` sets them; a suspended account has no
session. -/
def Session.of (user : User) (remoteAddr : String) (now : Nat) (hookInstalled : Bool) :
    Option Session :=
  if user.suspended then none
  else
    some
      { user := user.username, privileged := decide (1 < user.accountType.id)
        remoteAddr, now, hookInstalled }

/-! ### Looking things up -/

/-- `pkgbase_from_name`, or `InvalidPackageBaseException`. -/
def withPkgbase (cfg : Config) (db : Db) (pkgbase : String)
    (command : PackageBase → Result) : Result :=
  match baseNamed cfg db pkgbase with
  | none => failed db (.invalidPackageBase pkgbase)
  | some b => command b

/-- `SELECT ID FROM Users WHERE Username = ?`; there is no `None[0]`. -/
def withUser (cfg : Config) (db : Db) (user : String) (command : User → Result) : Result :=
  match userNamed cfg db user with
  | none => (.error (.raised "TypeError"), db)
  | some u => command u

/-- `pkgbase_get_comaintainers`. -/
def getComaintainers (cfg : Config) (db : Db) (pkgbase : String) : List String :=
  match baseNamed cfg db pkgbase with
  | none => []
  | some b => (byPriority db b.id).filterMap fun c => (db.user? c.usersID).map (·.username)

/-- `user_email_verified`. -/
def userEmailVerified (cfg : Config) (db : Db) (user : String) : Bool :=
  match userNamed cfg db user with
  | none => false
  | some u => u.emailVerified

/-- `pkgbase_has_write_access`. -/
def hasWriteAccess (cfg : Config) (db : Db) (pkgbase user : String) : Bool :=
  db.packageBases.any fun b => cfg.sameName b.name pkgbase &&
    db.users.any fun u => cfg.sameName u.username user &&
      (some u.id == b.maintainerUID || isComaintainer db b.id u.id)

/-- `pkgbase_has_full_access`. -/
def hasFullAccess (cfg : Config) (db : Db) (pkgbase user : String) : Bool :=
  db.packageBases.any fun b => cfg.sameName b.name pkgbase &&
    db.users.any fun u => cfg.sameName u.username user && some u.id == b.maintainerUID

/-- `pkgbase_is_orphan`. -/
def isOrphan (cfg : Config) (db : Db) (pkgbase : String) : Bool :=
  db.packageBases.any fun b => cfg.sameName b.name pkgbase && b.maintainerUID.isNone

/-- `bans_match`. -/
def bansMatch (db : Db) (remoteAddr : String) : Bool := db.bans.contains remoteAddr

/-- `log_ssh_login`. -/
def logSSHLogin (cfg : Config) (db : Db) (s : Session) : Db :=
  { db with
    users := Table.update (fun u => cfg.sameName u.username s.user)
      (fun u =>
        { u with lastSSHLogin := s.now, lastSSHLoginIPAddress := some s.remoteAddr }) db.users }

/-! ### Commands -/

/-- `validate_pkgbase`. -/
def validatePkgbase (cfg : Config) (db : Db) (pkgbase user : String) : Result :=
  if !cfg.repoRegex pkgbase then failed db (.invalidRepositoryName pkgbase)
  else if (baseNamed cfg db pkgbase).isSome then failed db (.packageBaseExists pkgbase)
  else withUser cfg db user fun _ => (.ok (.restore pkgbase), db)

/-- `pkgreq_by_pkgbase`. -/
def pkgreqByPkgbase (db : Db) (base : PackageBase) (reqType : RequestType) : List Nat :=
  (db.packageRequests.filter fun r => r.concerns base && r.isPending reqType).map (·.id)

/-- `pkgbase_adopt`, with `pkgreq_open_adoption`. -/
def pkgbaseAdopt (cfg : Config) (db : Db) (pkgbase user : String) (now : Nat) : Result :=
  withPkgbase cfg db pkgbase fun base =>
    withUser cfg db user fun u =>
      if base.maintainerUID.isSome then failed db (.permissionDenied user)
      else if !(pkgreqByPkgbase db base .adoption).isEmpty then
        (.error (.die s!"There is already a pending adoption request for {pkgbase}."), db)
      else
        finished (insertRequest db
          { newRequest .adoption u base none "Autogenerated by aurweb (SSH)." "" now with
            packageBaseName := pkgbase })

/-- The ids of a list of names, or `None[0]`. -/
def idsOf (cfg : Config) (db : Db) (usernames : List String) : Option (List Nat) :=
  usernames.mapM fun username => (userNamed cfg db username).map (·.id)

/-- The statements of `pkgbase_set_comaintainers`. -/
def writeComaintainers (db : Db) (baseID : Nat) (uidsOld uidsNew : List Nat) : Db :=
  let priority := fun uid => uidsNew.idxOf uid + 1
  let kept := Table.delete
    (fun c => c.of baseID && (uidsOld.contains c.usersID && !uidsNew.contains c.usersID))
    db.packageComaintainers
  let renumbered := Table.update
    (fun c => c.of baseID && (uidsOld.contains c.usersID && uidsNew.contains c.usersID))
    (fun c => { c with priority := priority c.usersID }) kept
  { db with
    packageComaintainers := renumbered ++
      (uidsNew.filter fun uid => !uidsOld.contains uid).map fun uid =>
        { usersID := uid, packageBaseID := baseID, priority := priority uid } }

/-- `pkgbase_set_comaintainers`. -/
def pkgbaseSetComaintainers (cfg : Config) (db : Db) (pkgbase : String) (userlist : List String)
    (user : String) (privileged : Bool) : Result :=
  withPkgbase cfg db pkgbase fun base =>
    if !privileged && !hasFullAccess cfg db pkgbase user then
      failed db (.permissionDenied user)
    else
      match idsOf cfg db (getComaintainers cfg db pkgbase).dedup, idsOf cfg db userlist with
      | some uidsOld, some uidsNew =>
          finished (writeComaintainers db base.id uidsOld (cfg.setOrder.run uidsNew))
      | _, _ => (.error (.raised "TypeError"), db)

/-- `pkgreq_close` with `autoclose`. -/
def pkgreqClose (db : Db) (reqid : Nat) (status : RequestStatus) (comments : String)
    (now : Nat) : Db :=
  updateRequests db (·.id == reqid) fun r =>
    { r with
      status := status, closedTS := some now, closedUID := none, closureComment := comments }

/-- `pkgbase_disown`. -/
def pkgbaseDisown (cfg : Config) (db : Db) (pkgbase user : String) (privileged : Bool)
    (now : Nat) : Result :=
  withPkgbase cfg db pkgbase fun base =>
    let initializedByOwner := hasFullAccess cfg db pkgbase user
    if !privileged && !initializedByOwner then failed db (.permissionDenied user)
    else
      -- Scan through pending orphan requests and close them.
      let closed := (pkgreqByPkgbase db base .orphan).foldl
        (fun db reqid =>
          pkgreqClose db reqid .accepted s!"The user {user} disowned the package." now) db
      -- The first co-maintainer is next, unless the action was enforced.
      let comaintainers := if initializedByOwner then getComaintainers cfg closed pkgbase else []
      let next := comaintainers.head?.map fun name => (userNamed cfg closed name).map (·.id)
      if next = some none then (.error (.raised "TypeError"), closed)
      else
        match pkgbaseSetComaintainers cfg closed pkgbase comaintainers.tail user privileged with
        | (.error e, db) => (.error e, db)
        | (.ok _, db) =>
            let db := setMaintainer db base.id next.join
            withUser cfg db user fun _ => finished db

/-- What a column of `n` characters has no room for: a server that is strict, as it is by default,
only cuts off blanks. -/
def overflows (n : Nat) (s : String) : Bool := (s.toList.drop n).any (· != ' ')

/-- What is left after so many bytes, but no part of a character. -/
def dropBytes : Nat → List Char → List Char
  | _, [] => []
  | n, c :: cs => if c.utf8Size ≤ n then dropBytes (n - c.utf8Size) cs else c :: cs

/-- What a `TEXT` column has no room for. -/
def overflowsText (s : String) : Bool := (dropBytes 65535 s.toList).any (· != ' ')

/-- `pkgbase_flag`; a base that is flagged is not written to. -/
def pkgbaseFlag (cfg : Config) (db : Db) (pkgbase user comment : String) (now : Nat) : Result :=
  withPkgbase cfg db pkgbase fun base =>
    if comment.length < 3 then failed db (.invalidComment comment)
    else
      withUser cfg db user fun u =>
        if base.outOfDateTS.isNone && overflowsText comment then (.error (.raised "DataError"), db)
        else finished (db.updatePackageBase base.id fun b =>
          if b.outOfDateTS = none then
            { b with outOfDateTS := some now, flaggerUID := some u.id, flaggerComment := comment }
          else b)

/-- `pkgbase_unflag`; a comaintainer is recognised by name. -/
def pkgbaseUnflag (cfg : Config) (db : Db) (pkgbase user : String) : Result :=
  withPkgbase cfg db pkgbase fun base =>
    withUser cfg db user fun u =>
      if (getComaintainers cfg db pkgbase).contains user then
        finished (db.updatePackageBase base.id fun b => { b with outOfDateTS := none })
      else
        finished (db.updatePackageBase base.id fun b =>
          if b.maintainerUID = some u.id ∨ b.flaggerUID = some u.id then
            { b with outOfDateTS := none }
          else b)

/-- What `pkgbase_vote` writes: the row is unique, the counter is counted up. -/
def commitVote (db : Db) (baseID uid now : Nat) : Result :=
  if hasPackageVote db baseID uid then (.error (.raised "IntegrityError"), db)
  else
    let vote := { usersID := uid, packageBaseID := baseID, voteTS := now }
    finished (Db.updatePackageBase { db with packageVotes := db.packageVotes ++ [vote] } baseID
      fun b => { b with numVotes := b.numVotes + 1 })

/-- `pkgbase_vote`. -/
def pkgbaseVote (cfg : Config) (db : Db) (pkgbase user : String) (now : Nat) : Result :=
  withPkgbase cfg db pkgbase fun base =>
    withUser cfg db user fun u =>
      if hasPackageVote db base.id u.id then failed db (.alreadyVoted pkgbase)
      else commitVote db base.id u.id now

/-- The counter column is unsigned: what would make it negative is an error. -/
def underflows (db : Db) (baseID : Nat) : Bool :=
  db.packageBases.any fun b => b.id == baseID && b.numVotes == 0

/-- What `pkgbase_unvote` writes. -/
def commitUnvote (db : Db) (baseID uid : Nat) : Result :=
  if underflows db baseID then (.error (.raised "OperationalError"), db)
  else
    let votes := Table.delete (fun v => v.packageBaseID == baseID && v.usersID == uid)
      db.packageVotes
    finished (Db.updatePackageBase { db with packageVotes := votes } baseID
      fun b => { b with numVotes := b.numVotes - 1 })

/-- `pkgbase_unvote`. -/
def pkgbaseUnvote (cfg : Config) (db : Db) (pkgbase user : String) : Result :=
  withPkgbase cfg db pkgbase fun base =>
    withUser cfg db user fun u =>
      if !hasPackageVote db base.id u.id then failed db (.notVoted pkgbase)
      else commitUnvote db base.id u.id

/-- The primary key of `PackageKeywords` does not let a keyword be given twice. -/
def repeats (cfg : Config) : List String → Bool
  | [] => false
  | w :: ws => ws.any (cfg.sameName w) || repeats cfg ws

/-- The error of the first keyword that is not inserted, after those that were. -/
def refuses (cfg : Config) (inserted : List String) : List String → Option String
  | [] => none
  | w :: ws =>
      if overflows 255 w then some "DataError"
      else if inserted.any (cfg.sameName w) then some "IntegrityError"
      else refuses cfg (w :: inserted) ws

/-- `pkgbase_set_keywords`. -/
def pkgbaseSetKeywords (cfg : Config) (db : Db) (pkgbase : String) (keywords : List String) :
    Result :=
  withPkgbase cfg db pkgbase fun base =>
    match refuses cfg [] keywords with
    | some e => (.error (.raised e), db)
    | none =>
        finished { db with
          packageKeywords :=
            Table.delete (·.packageBaseID == base.id) db.packageKeywords ++
              keywords.map fun w => { packageBaseID := base.id, keyword := w } }

/-! ### `serve` -/

inductive Command
  | uploadPack (path : String)
  | receivePack (path : String)
  | setKeywords (pkgbase : String) (keywords : List String)
  | listRepos
  | restore (pkgbase : String)
  | adopt (pkgbase : String)
  | disown (pkgbase : String)
  | flag (pkgbase comment : String)
  | unflag (pkgbase : String)
  | vote (pkgbase : String)
  | unvote (pkgbase : String)
  | setComaintainers (pkgbase : String) (users : List String)
  | help
  deriving DecidableEq, Repr

/-- `checkarg` for a command with one argument. -/
def oneArg (desc : String) (command : String → Command) :
    List String → Except AurwebException Command
  | [] => .error (.invalidArguments s!"missing {desc}")
  | [a] => .ok (command a)
  | _ => .error (.invalidArguments "too many arguments")

/-- `checkarg_atleast`. -/
def oneArgOrMore (command : String → List String → Command) :
    List String → Except AurwebException Command
  | [] => .error (.invalidArguments "missing repository name")
  | a :: as => .ok (command a as)

/-- The actions of `serve`, with `checkarg`. -/
def parseAction (action : String) (args : List String) : Except AurwebException Command :=
  match action with
  | "git-upload-pack" => oneArg "path" .uploadPack args
  | "git-receive-pack" => oneArg "path" .receivePack args
  | "set-keywords" => oneArgOrMore .setKeywords args
  | "list-repos" =>
      if args.isEmpty then .ok .listRepos else .error (.invalidArguments "too many arguments")
  | "restore" => oneArg "repository name" .restore args
  | "adopt" => oneArg "repository name" .adopt args
  | "disown" => oneArg "repository name" .disown args
  | "flag" =>
      match args with
      | [] => .error (.invalidArguments "missing repository name")
      | [_] => .error (.invalidArguments "missing comment")
      | [pkgbase, comment] => .ok (.flag pkgbase comment)
      | _ => .error (.invalidArguments "too many arguments")
  | "unflag" => oneArg "repository name" .unflag args
  | "vote" => oneArg "repository name" .vote args
  | "unvote" => oneArg "repository name" .unvote args
  | "set-comaintainers" => oneArgOrMore .setComaintainers args
  | "help" => .ok .help
  | _ => .error (.invalidArguments s!"invalid command: {action}")

/-- `readonly`. -/
def readonly (action : String) (args : List String) : Bool :=
  ["git-upload-pack", "list-repos", "help"].contains action ||
    (action == "git" && args.head? == some "upload-pack")

/-- `git upload-pack` is `git-upload-pack`, and `cmdargv[1]` has to be there. -/
def normalizeAction (action : String) (args : List String) :
    Except Failure (String × List String) :=
  if action = "git" then
    match args with
    | [] => .error (.raised "IndexError")
    | a :: as =>
        if ["upload-pack", "receive-pack"].contains a then .ok (s!"git-{a}", as)
        else .ok (action, args)
  else .ok (action, args)

/-- `pkgbase` out of the path of a repository. -/
def repoName (path : String) : String :=
  let path := (path.toList.reverse.dropWhile (· == '/')).reverse
  let path := if path.head? = some '/' then path else '/' :: path
  let suffix := ".git".toList
  let path := if path.drop (path.length - suffix.length) = suffix then path else path ++ suffix
  String.ofList ((path.take (path.length - 4)).drop 1)

/-- The access check of a push. -/
def mayPush (cfg : Config) (db : Db) (s : Session) (pkgbase : String) :
    Except AurwebException Unit :=
  if (baseNamed cfg db pkgbase).isSome && !s.privileged &&
      !hasWriteAccess cfg db pkgbase s.user then
    if isOrphan cfg db pkgbase then .error (.orphanPackageBase pkgbase)
    else .error (.permissionDenied s.user)
  else .ok ()

/-- One command, after the checks they have in common. -/
def dispatch (cfg : Config) (db : Db) (s : Session) : Command → Result
  | .uploadPack path =>
      if !cfg.repoRegex (repoName path) then failed db (.invalidRepositoryName (repoName path))
      else if !s.hookInstalled then failed db .brokenUpdateHook
      else (.ok (.uploadPack (repoName path)), db)
  | .receivePack path =>
      if !cfg.repoRegex (repoName path) then failed db (.invalidRepositoryName (repoName path))
      else
        match mayPush cfg db s (repoName path) with
        | .error e => failed db e
        | .ok () =>
            if !s.hookInstalled then failed db .brokenUpdateHook
            else (.ok (.receivePack (repoName path)), db)
  | .setKeywords pkgbase keywords => pkgbaseSetKeywords cfg db pkgbase keywords
  | .listRepos => withUser cfg db s.user fun _ => finished db
  | .restore pkgbase => validatePkgbase cfg db pkgbase s.user
  | .adopt pkgbase => pkgbaseAdopt cfg db pkgbase s.user s.now
  | .disown pkgbase => pkgbaseDisown cfg db pkgbase s.user s.privileged s.now
  | .flag pkgbase comment => pkgbaseFlag cfg db pkgbase s.user comment s.now
  | .unflag pkgbase => pkgbaseUnflag cfg db pkgbase s.user
  | .vote pkgbase => pkgbaseVote cfg db pkgbase s.user s.now
  | .unvote pkgbase => pkgbaseUnvote cfg db pkgbase s.user
  | .setComaintainers pkgbase users =>
      pkgbaseSetComaintainers cfg db pkgbase users s.user s.privileged
  | .help => finished db

/-- `serve`; `cmdargv` is the action and its arguments. -/
def serve (cfg : Config) (db : Db) (s : Session) (action : String) (args : List String) :
    Result :=
  if cfg.enableMaintenance && !cfg.maintenanceExceptions.contains s.remoteAddr then
    failed db .maintenance
  else if bansMatch db s.remoteAddr then failed db .banned
  else
    let db := logSSHLogin cfg db s
    if !readonly action args && !userEmailVerified cfg db s.user then
      failed db .emailNotVerified
    else
      match normalizeAction action args with
      | .error e => (.error e, db)
      | .ok (action, args) =>
          match parseAction action args with
          | .error e => failed db e
          | .ok command => dispatch cfg db s command

/-! ### `shlex.split` -/

/-- Where the lexer is; a quoted word is one even when it is empty. -/
inductive Lexer
  | blank
  | word
  | quoted (quote : Char)
  | escaped (back : Option Char)
  deriving DecidableEq, Repr

/-- `shlex.split`, from a state of the lexer and the word read so far, last character first;
`none` is its `ValueError`. -/
def lex : Lexer → List Char → List Char → Option (List String)
  | .blank, _, [] => some []
  | .word, token, [] => some [String.ofList token.reverse]
  | .quoted _, _, [] => none
  | .escaped _, _, [] => none
  | .blank, _, c :: cs =>
      if c.isWhitespace then lex .blank [] cs
      else if c = '\\' then lex (.escaped none) [] cs
      else if c = '\'' ∨ c = '"' then lex (.quoted c) [] cs
      else lex .word [c] cs
  | .word, token, c :: cs =>
      if c.isWhitespace then (lex .blank [] cs).map (String.ofList token.reverse :: ·)
      else if c = '\\' then lex (.escaped none) token cs
      else if c = '\'' ∨ c = '"' then lex (.quoted c) token cs
      else lex .word (c :: token) cs
  | .quoted quote, token, c :: cs =>
      if c = quote then lex .word token cs
      else if c = '\\' ∧ quote = '"' then lex (.escaped (some quote)) token cs
      else lex (.quoted quote) (c :: token) cs
  | .escaped none, token, c :: cs => lex .word (c :: token) cs
  | .escaped (some quote), token, c :: cs =>
      -- Between quotes a backslash stays, unless there was something to escape.
      if c = '\\' ∨ c = quote then lex (.quoted quote) (c :: token) cs
      else lex (.quoted quote) (c :: '\\' :: token) cs

def shlexSplit (s : String) : Option (List String) := lex .blank [] s.toList

example : shlexSplit "flag foo 'out of date'" = some ["flag", "foo", "out of date"] := by
  decide +kernel

/-! ### `main` -/

/-- What `main` is configured with. -/
structure CommandLine where
  sshCmdline : String
  gitUpdateCmd : String
  deriving DecidableEq, Repr

/-- What an exception says. -/
def AurwebException.message (c : CommandLine) : AurwebException → String
  | .maintenance => ""
  | .banned => ""
  | .emailNotVerified => ""
  | .permissionDenied user => s!"permission denied: {user}"
  | .orphanPackageBase pkgbase =>
      s!"{pkgbase} is orphaned. Run `{c.sshCmdline} adopt {pkgbase}` to request adoption; " ++
        "a Package Maintainer must grant it before you can push."
  | .brokenUpdateHook => s!"broken update hook: {c.gitUpdateCmd}"
  | .invalidPackageBase pkgbase => s!"package base not found: {pkgbase}"
  | .invalidRepositoryName pkgbase => s!"invalid repository name: {pkgbase}"
  | .packageBaseExists pkgbase => s!"package base already exists: {pkgbase}"
  | .invalidComment comment => s!"comment is too short: {comment}"
  | .alreadyVoted comment => s!"already voted for package base: {comment}"
  | .notVoted comment => s!"missing vote for package base: {comment}"
  | .invalidArguments message => message

/-- `die_with_help`. -/
def withHelp (c : CommandLine) (message : String) : String :=
  message ++ s!"\nTry `{c.sshCmdline} help` for a list of commands."

/-- What `main` dies with when `serve` raises. -/
def report (c : CommandLine) (action : String) (e : AurwebException) : String :=
  match e with
  | .maintenance => "The AUR is down due to maintenance. We will be back soon."
  | .banned => "The SSH interface is disabled for your IP address."
  | .emailNotVerified =>
      "Your account email is not verified. Verify it from your profile on the AUR website " ++
        "before pushing."
  | .invalidArguments _ => withHelp c s!"{action}: {e.message c}"
  | _ => s!"{action}: {e.message c}"

/-- `main`; `sshCmd` is `SSH_ORIGINAL_COMMAND`. -/
def main (cfg : Config) (c : CommandLine) (db : Db) (s : Session) (sshCmd : Option String) :
    Result :=
  match sshCmd.filter (· != "") with
  | none =>
      (.error (.die (withHelp c s!"Welcome to AUR, {s.user}! Interactive shell is disabled.")), db)
  | some sshCmd =>
      match shlexSplit sshCmd with
      | none => (.error (.raised "ValueError"), db)
      | some [] => (.error (.raised "IndexError"), db)
      | some (action :: args) =>
          match serve cfg db s action args with
          | (.error (.exception e), db) => (.error (.die (report c action e)), db)
          | result => result

end Aurweb.GitServe
