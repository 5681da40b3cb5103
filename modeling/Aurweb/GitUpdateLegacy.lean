/-
The update hook that reads a `.SRCINFO` with the srcinfo package:
`aurweb/git/update_legacy.py`.

The srcinfo package is not part of the repository.  What the hook takes from it is
`Utils`, the names of the packages of a parsed `.SRCINFO` and the section of one of them
with the section of the base merged in, and `Utils` carries what is documented of the
two.  What the hook checks outside the `.SRCINFO` (fast-forwards and the trees of the new
commits) is one outcome, `commits`.
-/
import Aurweb.GitUpdate

namespace Aurweb.GitUpdateLegacy

open Txn Txn.Prog GitUpdate

/-! ### A parsed `.SRCINFO` -/

/-- A section; whether a field is a string or a list is settled by its name. -/
structure Section where
  str : String → Option String
  arr : String → Option (List String)

structure Srcinfo where
  base : Section
  /-- The keys of a dictionary, in order. -/
  packages : List (String × Section)
  nodup : (packages.map (·.1)).Nodup

/-- `srcinfo.utils`.  The fields of a package override those of the base. -/
structure Utils where
  getPackageNames : Srcinfo → List String
  getMergedPackage : String → Srcinfo → Section
  names_eq : ∀ info, getPackageNames info = info.packages.map (·.1)
  pkgname_eq : ∀ info, ∀ entry ∈ info.packages,
    (getMergedPackage entry.1 info).str "pkgname" = some entry.1
  str_eq : ∀ info, ∀ entry ∈ info.packages, ∀ field, field ≠ "pkgname" →
    (getMergedPackage entry.1 info).str field = (entry.2.str field).or (info.base.str field)
  arr_eq : ∀ info, ∀ entry ∈ info.packages, ∀ field,
    (getMergedPackage entry.1 info).arr field = (entry.2.arr field).or (info.base.arr field)

/-- The Unicode properties `str.isdigit` and `int` go by. -/
structure Digits where
  isDigit : Char → Bool
  decimal : Char → Option Nat

/-- `pkginfo[field]`. -/
def Section.getStr (pkginfo : Section) (field : String) : Except Failure String :=
  match pkginfo.str field with
  | some value => .ok value
  | none => .error (.raised "KeyError")

def Section.getArr (pkginfo : Section) (field : String) : Except Failure (List String) :=
  match pkginfo.arr field with
  | some values => .ok values
  | none => .error (.raised "KeyError")

/-! ### Fields -/

/-- A value and the architecture it is for. -/
structure Entry where
  value : String
  arch : Option String
  deriving DecidableEq, Repr

/-- The two loops of `extract_arch_fields`, over a list of architectures. -/
def archEntries (pkginfo : Section) (arches : List String) (field : String) : List Entry :=
  ((pkginfo.arr field).getD []).map (fun val => { value := val, arch := none }) ++
    arches.flatMap fun arch =>
      ((pkginfo.arr (field ++ "_" ++ arch)).getD []).map fun val =>
        { value := val, arch := some arch }

/-- `extract_arch_fields`. -/
def extractArchFields (pkginfo : Section) (field : String) : Except Failure (List Entry) := do
  let arches ← pkginfo.getArr "arch"
  pure (archEntries pkginfo arches field)

/-- `partition(": ")`, without the separator. -/
def partition : List Char → List Char × List Char
  | [] => ([], [])
  | ':' :: ' ' :: rest => ([], rest)
  | c :: cs => (c :: (partition cs).1, (partition cs).2)

/-- `re.sub(r"(<|=|>).*", "", dep)`; a match goes up to the end of the line. -/
def dropConditions (inMatch : Bool) : List Char → List Char
  | [] => []
  | c :: cs =>
      if inMatch then
        if c = '\n' then c :: dropConditions false cs else dropConditions true cs
      else if c = '<' ∨ c = '=' ∨ c = '>' then dropConditions true cs
      else c :: dropConditions false cs

/-- `parse_dep`: the name, the description and the condition. -/
def parseDep (depstring : String) : String × String × String :=
  let dep := (partition depstring.toList).1
  let desc := (partition depstring.toList).2
  let depname := dropConditions false dep
  let depcond := dep.drop depname.length
  (String.ofList depname, String.ofList desc, String.ofList depcond)

def Entry.source (e : Entry) : Source := { source := e.value, arch := e.arch }

def Entry.dependency (e : Entry) : Dependency :=
  let (depname, depdesc, depcond) := parseDep e.value
  { name := depname, desc := depdesc, cond := depcond, arch := e.arch }

def Entry.relation (e : Entry) : Relation :=
  let (relname, _, relcond) := parseDep e.value
  { name := relname, cond := relcond, arch := e.arch }

def depField : DependencyType → String
  | .depends => "depends"
  | .makedepends => "makedepends"
  | .checkdepends => "checkdepends"
  | .optdepends => "optdepends"

def relField : RelationType → String
  | .conflicts => "conflicts"
  | .provides => "provides"
  | .replaces => "replaces"

/-- `int`, of a string of digits. -/
def Digits.int (digits : Digits) (s : String) : Except Failure Nat :=
  match s.toList.mapM digits.decimal with
  | some ds => .ok (ds.foldl (fun n d => 10 * n + d) 0)
  | none => .error (.raised "ValueError")

/-- `ver`: the epoch is left out when it is zero. -/
def version (digits : Digits) (pkginfo : Section) : Except Failure String := do
  let epoch ←
    match pkginfo.str "epoch" with
    | some epoch => digits.int epoch
    | none => pure 0
  let pkgver ← pkginfo.getStr "pkgver"
  let pkgrel ← pkginfo.getStr "pkgrel"
  if epoch > 0 then pure s!"{epoch}:{pkgver}-{pkgrel}" else pure s!"{pkgver}-{pkgrel}"

/--
What `save_metadata` makes of a package.  Only a missing `arch` can end the look-ups, and
`validate_metadata` has found it in every package by then.
-/
def packageData (digits : Digits) (pkginfo : Section) : Except Failure PackageData := do
  let name ← pkginfo.getStr "pkgname"
  let arches ← pkginfo.getArr "arch"
  pure {
    name
    version := version digits pkginfo
    description := pkginfo.str "pkgdesc"
    url := pkginfo.str "url"
    passes := [{
      sources := (archEntries pkginfo arches "source").map (·.source)
      depends := fun t => (archEntries pkginfo arches (depField t)).map (·.dependency)
      relations := fun t => (archEntries pkginfo arches (relField t)).map (·.relation) }]
    licenses := (pkginfo.arr "license").getD []
    groups := (pkginfo.arr "groups").getD [] }

/-! ### `validate_metadata` -/

/-- The commit at the head of the push; `tree` is what its tree has. -/
structure Commit where
  id : String
  tree : String → Bool

/-- `die_commit`. -/
def dieCommit (commit : Commit) (message : String) : Except Failure Unit :=
  let prelude := "The following error occurred when parsing commit\n"
  .error (.die s!"{prelude}error: {commit.id}:\nerror: {message}")

/-- `[a-z0-9]`. -/
def isNameStart (c : Char) : Bool := 'a' ≤ c && c ≤ 'z' || '0' ≤ c && c ≤ '9'

/-- `[a-z0-9\.+_-]`. -/
def isNameChar (c : Char) : Bool := isNameStart c || ['.', '+', '_', '-'].contains c

/-- `re.match(r"[a-z0-9][a-z0-9\.+_-]*$", name)`; the `$` lets one newline pass. -/
def validName (name : String) : Bool :=
  match name.toList with
  | [] => false
  | c :: cs =>
      let body := if cs.getLast? = some '\n' then cs.dropLast else cs
      isNameStart c && body.all isNameChar

/-- `pat in s`. -/
def occursIn (pat : List Char) : List Char → Bool
  | [] => pat.isEmpty
  | c :: cs => pat.isPrefixOf (c :: cs) || occursIn pat cs

/-- `"://" in fname or "lp:" in fname`. -/
def isRemote (fname : String) : Bool :=
  occursIn "://".toList fname.toList || occursIn "lp:".toList fname.toList

/-- `max_len`. -/
def maxLen : List (String × Nat) := [("pkgname", 255), ("pkgdesc", 255), ("url", 8000)]

/-- The checks on the merged section of one package. -/
def validatePackage (digits : Digits) (commit : Commit) (pkginfo : Section) :
    Except Failure Unit := do
  ["pkgver", "pkgrel", "pkgname"].forM fun field =>
    if (pkginfo.str field).isNone then dieCommit commit s!"missing mandatory field: {field}"
    else pure ()
  match pkginfo.str "epoch" with
  | some epoch =>
      if epoch.toList.isEmpty || !epoch.toList.all digits.isDigit then
        dieCommit commit s!"invalid epoch: {epoch}"
  | none => pure ()
  let pkgname ← pkginfo.getStr "pkgname"
  if !validName pkgname then dieCommit commit s!"invalid package name: {pkgname}"
  maxLen.forM fun (field, limit) =>
    match pkginfo.str field with
    | some value =>
        if value.length > limit then dieCommit commit s!"{field} field too long: {value}"
        else pure ()
    | none => pure ()
  ["install", "changelog"].forM fun field =>
    match pkginfo.str field with
    | some value =>
        if !commit.tree value then dieCommit commit s!"missing {field} file: {value}"
        else pure ()
    | none => pure ()
  let sources ← extractArchFields pkginfo "source"
  sources.forM fun field =>
    let fname := field.value
    if fname.length > 8000 then dieCommit commit s!"source entry too long: {fname}"
    else if isRemote fname then pure ()
    else if !commit.tree fname then dieCommit commit s!"missing source file: {fname}"
    else pure ()

/-- The set of names is gone through in no particular order; here it is that of the file. -/
def validateMetadata (digits : Digits) (utils : Utils) (cfg : Config) (commit : Commit)
    (metadata : Srcinfo) : Except Failure Unit := do
  match metadata.base.str "pkgbase" with
  | none => dieCommit commit "invalid .SRCINFO, does not contain a pkgbase (is the file empty?)"
  | some pkgbase =>
      if !cfg.repoRegex pkgbase then dieCommit commit s!"invalid pkgbase: {pkgbase}"
  if metadata.packages.isEmpty then dieCommit commit "missing pkgname entry"
  (metadata.packages.map (·.1)).forM fun pkgname =>
    validatePackage digits commit (utils.getMergedPackage pkgname metadata)

/-! ### `main` -/

/-- What the hook is run on, once the `.SRCINFO` of the head commit has been parsed. -/
structure Push where
  metadata : Srcinfo
  head : Commit
  /-- How the checks of history and of the new commits end. -/
  commits : Except Failure Unit
  /-- `AUR_PKGBASE`, `AUR_USER` and `AUR_PRIVILEGED`. -/
  pkgbase : String
  user : String
  privileged : Bool
  now : Nat

/-- `main`, from `validate_metadata` on. -/
def main (digits : Digits) (utils : Utils) (cfg : Config) (push : Push) : Hook Unit := do
  ofExcept (validateMetadata digits utils cfg push.head push.metadata)
  ofExcept push.commits
  let pkgbase ← ofExcept (push.metadata.base.getStr "pkgbase")
  when (pkgbase != push.pkgbase)
    (raise (.die s!"invalid pkgbase: {pkgbase}, expected {push.pkgbase}"))
  let packages ← ofExcept ((utils.getPackageNames push.metadata).mapM fun pkgname =>
    packageData digits (utils.getMergedPackage pkgname push.metadata))
  GitUpdate.main cfg
    { pkgbase, user := push.user, privileged := push.privileged, packages, now := push.now }

end Aurweb.GitUpdateLegacy
