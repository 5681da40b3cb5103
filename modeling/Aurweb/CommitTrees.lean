/-
What the update hooks ask of the tree of every new commit: the loop in `main` of
`aurweb/git/update.py` and of `aurweb/git/update_legacy.py`, with `validate_blob_size`.

The two differ in what they want of `LICENSES/`.  One has `pkgctl` check it, which is not part
of the repository, and how that ends for a commit is one of four ways.  The other goes by the
names of the files.  What a hook checks before and after the loop is one outcome each.
-/
import Aurweb.FastForward
import Aurweb.GitUpdateLegacy
import Aurweb.Lib.FileTree

namespace Aurweb.CommitTrees

open GitUpdate (Failure)
open ReceivePack (Commit)

/-! ### Trees -/

/-- The id of a tree. -/
abbrev Oid := String

/-- What a name in a tree stands for: a blob, of which only the size matters, a tree, or the
commit of a submodule. -/
abbrev Item := FileTree.Item Nat Oid

abbrev Tree := FileTree.Dir Nat Oid

structure Trees where
  /-- `commit.tree`. -/
  root : Commit → Tree
  tree : Oid → Tree

/-- `commit.tree[path]`, if `path in commit.tree`. -/
def Trees.lookup (trees : Trees) (commit : Commit) (path : List String) : Option Item :=
  FileTree.lookup trees.tree (trees.root commit) path

/-- `for treeobj in item`. -/
def Trees.iterate (trees : Trees) : Item → Except Failure (List (String × Item))
  | .dir id => .ok (trees.tree id).entries
  | _ => .error (.raised "TypeError")

/-- `die_commit`. -/
def dieCommit (trees : Trees) (commit : Commit) (message : String) : Except Failure Unit :=
  GitUpdateLegacy.dieCommit
    { id := commit, tree := fun name => (trees.lookup commit [name]).isSome } message

/-! ### `aurweb/git/update_common.py` -/

/-- A quotient with two decimals, rounded to even. -/
def twoDecimals (num den : Nat) : String :=
  let down := 100 * num / den
  let rest := 100 * num % den
  let hundredths :=
    if 2 * rest < den ∨ 2 * rest = den ∧ down % 2 = 0 then down else down + 1
  let digits := toString (hundredths % 100)
  let padded := if digits.length < 2 then "0" ++ digits else digits
  s!"{hundredths / 100}.{padded}"

/-- The loop of `size_humanize`; the size has been divided by `den` so far. -/
def humanize (num den : Nat) : List String → String
  | [] => s!"{twoDecimals num den}YiB"
  | unit :: units =>
      if num < 2048 * den then
        if den = 1 then s!"{num}{unit}" else s!"{twoDecimals num den}{unit}"
      else humanize num (1024 * den) units

/-- `size_humanize`. -/
def sizeHumanize (num : Nat) : String :=
  humanize num 1 ["B", "KiB", "MiB", "GiB", "TiB", "PiB", "EiB", "ZiB"]

example : sizeHumanize 256000 = "250.00KiB" := by decide +kernel

/-- The options that the loop reads. -/
structure Options where
  /-- `max-blob-size`. -/
  maxBlobSize : Nat
  /-- `license_check_timeout`. -/
  licenseCheckTimeout : Option Nat
  /-- `pkgctl_executable`. -/
  pkgctlExecutable : Option String

/-- The values `conf/config.defaults` sets. -/
def Options.defaults : Options where
  maxBlobSize := 256000
  licenseCheckTimeout := some 15
  pkgctlExecutable := some "/usr/bin/pkgctl"

/-- `validate_blob_size`. -/
def validateBlobSize (o : Options) (trees : Trees) (commit : Commit) : Item → Except Failure Unit
  | .file size =>
      if size > o.maxBlobSize then
        dieCommit trees commit s!"maximum blob size ({sizeHumanize o.maxBlobSize}) exceeded"
      else pure ()
  | _ => pure ()

/-! ### One commit -/

/-- `name.endswith(suffix)`. -/
def endsWith (suffix name : String) : Bool := suffix.toList.isSuffixOf name.toList

/-- "Iterate over files in root dir". -/
def validateRoot (o : Options) (trees : Trees) (commit : Commit) : Except Failure Unit :=
  (trees.root commit).entries.forM fun (name, item) => do
    if item.isDir && !(["keys", "LICENSES"].contains name) then
      dieCommit trees commit "the repository must not contain subdirectories"
    validateBlobSize o trees commit item

/-- "Check for forbidden files in keys/pgp/". -/
def validatePgp (o : Options) (trees : Trees) (commit : Commit) : Except Failure Unit := do
  match trees.lookup commit ["keys", "pgp"] with
  | none => pure ()
  | some pgp =>
      let pgpobjs ← trees.iterate pgp
      pgpobjs.forM fun (name, item) => do
        if !item.isFile || !endsWith ".asc" name then
          dieCommit trees commit "the subdir may only contain .asc (PGP pub key) files"
        validateBlobSize o trees commit item

/-- "If we got a subdir keys/, make sure it only contains a pgp/ subdir with key files". -/
def validateKeys (o : Options) (trees : Trees) (commit : Commit) : Except Failure Unit := do
  match trees.lookup commit ["keys"] with
  | none => pure ()
  | some keys =>
      let keyobjs ← trees.iterate keys
      keyobjs.forM fun (name, item) =>
        if !item.isDir || name != "pgp" then
          dieCommit trees commit "the keys/ subdir may only contain a pgp/ directory"
        else pure ()
      validatePgp o trees commit

/-- How `pkgctl license check` ends in a checkout of a commit. -/
inductive LicenseCheck
  | passed
  /-- `FileNotFoundError`. -/
  | notFound
  /-- `CalledProcessError`. -/
  | failed
  /-- `TimeoutExpired`. -/
  | timedOut
  deriving DecidableEq, Repr

/-- "Check REUSE compliance". -/
def checkReuse (o : Options) (trees : Trees) (check : Commit → LicenseCheck) (commit : Commit) :
    Except Failure Unit :=
  match o.pkgctlExecutable, o.licenseCheckTimeout with
  | none, _ => .error (.raised "NoOptionError")
  | some _, none => .error (.die "license_check_timeout needs to be configured")
  | some pkgctl, some seconds =>
      match check commit with
      | .passed => pure ()
      | .notFound => .error (.die s!"Executable not found: {pkgctl}")
      | .failed => dieCommit trees commit "License compliance check failed"
      | .timedOut =>
          dieCommit trees commit
            s!"License compliance check did not complete within {seconds} seconds"

/-- "If we got a subdir LICENSES/, then the repository must comply with REUSE." -/
def validateLicenses (o : Options) (trees : Trees) (check : Commit → LicenseCheck)
    (commit : Commit) : Except Failure Unit := do
  match trees.lookup commit ["LICENSES"] with
  | none => pure ()
  | some licenses =>
      let licenseObjs ← trees.iterate licenses
      licenseObjs.forM fun (_, item) =>
        if !item.isFile then dieCommit trees commit "the subdir may only contain files"
        else pure ()
      checkReuse o trees check commit

/-! ### `LICENSES/` in `aurweb/git/update_legacy.py` -/

def allowedLicenseFileExts : List String := ["md", "txt"]

/-- `os.path.splitext(os.path.basename(name))[0]`; dots at the start are no extension. -/
def basename (name : String) : String :=
  let name := (name.toList.reverse.takeWhile (· != '/')).reverse
  let root := ((name.reverse.dropWhile (· != '.')).drop 1).reverse
  String.ofList (if root.any (· != '.') then root else name)

example : [basename "GPL-3.0-or-later.txt", basename "LicenseRef-1", basename ".md"] =
    ["GPL-3.0-or-later", "LicenseRef-1", ".md"] := by
  decide +kernel

/-- `name.startswith(prefix)`. -/
def startsWith (start name : String) : Bool := start.toList.isPrefixOf name.toList

/-- "If we got a subdir LICENSES/, make sure it only contains file names that comply to REUSE." -/
def validateLicenseNames (trees : Trees) (acceptableBasenames : List String) (commit : Commit) :
    Except Failure Unit := do
  match trees.lookup commit ["LICENSES"] with
  | none => pure ()
  | some licenses =>
      let licenseObjs ← trees.iterate licenses
      let exts := allowedLicenseFileExts.map fun ext => s!".{ext}"
      licenseObjs.forM fun (name, item) => do
        if !item.isFile || !exts.any fun ext => endsWith ext name then
          dieCommit trees commit
            ("the subdir may only contain files ending in " ++ " or ".intercalate exts)
        if !acceptableBasenames.contains (basename name) &&
            !startsWith "LicenseRef-" (basename name) then
          dieCommit trees commit
            ("files in this subdir must either be named after an acceptable SPDX license " ++
              "or start with `LicenseRef-`")

/-! ### The hooks -/

/-- The two hooks, with what they go by. -/
inductive Hook
  | update (check : Commit → LicenseCheck)
  | updateLegacy (acceptableBasenames : List String)

/-- What a hook wants of `LICENSES/`. -/
def Hook.licenses (o : Options) (trees : Trees) : Hook → Commit → Except Failure Unit
  | update check => validateLicenses o trees check
  | updateLegacy acceptableBasenames => validateLicenseNames trees acceptableBasenames

/-- The body of the loop "Validate all new commits." -/
def validateCommit (o : Options) (trees : Trees) (hook : Hook) (commit : Commit) :
    Except Failure Unit := do
  if (trees.lookup commit ["PKGBUILD"]).isNone then dieCommit trees commit "missing PKGBUILD"
  validateRoot o trees commit
  validateKeys o trees commit
  hook.licenses o trees commit

/-- The rest of what a hook checks of a push, before and after the loop over its commits. -/
structure Checks where
  metadata : (pkgbase : String) → (old : Option Commit) → (new : Commit) → Except Failure Unit
  names : (pkgbase : String) → (old : Option Commit) → (new : Commit) → Except Failure Unit

/-- `main`, from the look-up of the `.SRCINFO` of the head commit to the checks of names. -/
def validate (o : Options) (trees : Trees) (hook : Hook) (checks : Checks) (pkgbase : String)
    (old : Option Commit) (new : Commit) (commits : List Commit) : Except Failure Unit := do
  if (trees.lookup new [".SRCINFO"]).isNone then dieCommit trees new "missing .SRCINFO"
  checks.metadata pkgbase old new
  commits.forM (validateCommit o trees hook)
  checks.names pkgbase old new

end Aurweb.CommitTrees
