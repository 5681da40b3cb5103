/-
The fast-forward check of the update hook, in `main` of `aurweb/git/update.py` and of
`aurweb/git/update_legacy.py`.

The walk is that of `pygit2`, and all that is said of it is what it shows.  A commit has the
same parents whenever it is looked at, so the commits of all pushes of a run are one graph.
-/
import Aurweb.Lib.Ancestry
import Aurweb.ReceivePack

namespace Aurweb.ReceivePack

open GitUpdate (Failure)

/-- `"0" * 40`, which stands for no commit. -/
def zeroID : Commit := "0000000000000000000000000000000000000000"

/-- `pygit2.Repository`, with the commits any push comes with. -/
structure Objects where
  has : Commit → Bool
  parents : Commit → List Commit
  /-- The commits that are shown from the first one on, with the others hidden. -/
  walk : Commit → List Commit → List Commit
  has_zeroID : has zeroID = false
  /-- A walk shows all ancestors; to hide a commit hides its ancestors as well. -/
  mem_walk : ∀ start hidden c, has start = true → (∀ h ∈ hidden, has h = true) →
    (c ∈ walk start hidden ↔
      Ancestry.Reach parents start c ∧ ¬∃ h ∈ hidden, Ancestry.Reach parents h c)

/-- The repository of these commits, of which none comes after one of its parents. -/
def Objects.ofLog (parents : Commit → List Commit) (commits : List Commit)
    (hsorted : Ancestry.Sorted parents commits) (hzero : zeroID ∉ commits) : Objects where
  has c := decide (c ∈ commits)
  parents := parents
  walk start hidden := Ancestry.walk parents commits [start] hidden
  has_zeroID := decide_eq_false hzero
  mem_walk start hidden c hstart hhidden := by
    rw [Ancestry.mem_walk hsorted, Ancestry.marked_of_subset, Ancestry.marked_of_subset]
    · simp
    · intro h hh
      exact of_decide_eq_true (hhidden h hh)
    · intro h hh
      rw [List.mem_singleton.mp hh]
      exact of_decide_eq_true hstart

/-- The second is an ancestor of the first, or the first itself. -/
def Objects.Reach (objects : Objects) : Commit → Commit → Prop := Ancestry.Reach objects.parents

/-! ### What the hook asks for -/

/-- `repo.walk`, and `hide` for the others. -/
def Objects.walker (objects : Objects) (start : Commit) (hidden : List Commit) :
    Except Failure (List Commit) :=
  if (start :: hidden).all objects.has then .ok (objects.walk start hidden)
  else .error (.raised "KeyError")

/-- "Detect and deny non-fast-forwards." -/
def Objects.fastForward (objects : Objects) (allowOverwrite : Bool) (old : Option Commit)
    (new : Commit) : Except Failure Unit :=
  match old with
  | none => .ok ()
  | some old =>
      if allowOverwrite then .ok ()
      else
        match objects.walker old [new] with
        | .error e => .error e
        | .ok [] => .ok ()
        | .ok (_ :: _) => .error (.die "denying non-fast-forward (you should pull first)")

/-- "Prepare the walker that validates new commits." -/
def Objects.newCommits (objects : Objects) (old : Option Commit) (new : Commit) :
    Except Failure (List Commit) :=
  objects.walker new old.toList

/-- What the hook finds here; `validate` is what it goes on to check. -/
def Objects.repo (objects : Objects) (srcinfo : Commit → List GitUpdate.PackageData)
    (validate : (pkgbase : String) → (old : Option Commit) → (new : Commit) → List Commit →
      Except Failure Unit) : Repo where
  srcinfo := srcinfo
  validates pkgbase allowOverwrite old new :=
    Except.isOk do
      objects.fastForward allowOverwrite old new
      let commits ← objects.newCommits old new
      validate pkgbase old new commits

end Aurweb.ReceivePack
