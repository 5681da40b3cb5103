/-
What the trees of accepted pushes look like.

Every check of the loop is read back as a fact about the tree (`Checked`), and `at_cases` goes
down the tree with these facts: a path leads to an entry of the root, to `keys/pgp`, to a key in
it, or to a license.  Sizes are known of all of them but the last, because no hook asks for the
size of a license.
-/
import Aurweb.CommitTrees
import Aurweb.Proofs.FastForward

namespace Aurweb.CommitTrees

open FileTree
open GitUpdate (Failure)
open ReceivePack (Commit Objects)

/-- What is asked of the tree of a commit. -/
structure Shapely (o : Options) (trees : Trees) (commit : Commit) : Prop where
  sizes : ∀ path size, At trees.tree (trees.root commit) path (.file size) →
    size ≤ o.maxBlobSize
  dirs : ∀ path id, At trees.tree (trees.root commit) path (.dir id) →
    path ∈ [["keys"], ["keys", "pgp"], ["LICENSES"]]
  keys : ∀ name path item,
    At trees.tree (trees.root commit) ("keys" :: "pgp" :: name :: path) item →
      path = [] ∧ item.isFile = true ∧ endsWith ".asc" name = true

/-- No license is larger than a blob may be. -/
def SmallLicenses (o : Options) (trees : Trees) (commit : Commit) : Prop :=
  ∀ name size, At trees.tree (trees.root commit) ["LICENSES", name] (.file size) →
    size ≤ o.maxBlobSize

/-- The commits that a push introduces. -/
def Introduces (objects : Objects) (old : Option Commit) (new c : Commit) : Prop :=
  objects.Reach new c ∧ ∀ o, old = some o → ¬objects.Reach o c

/-- What the checks say of a tree. -/
structure Checked (o : Options) (trees : Trees) (commit : Commit) : Prop where
  root : ∀ name item, (name, item) ∈ (trees.root commit).entries →
    (item.isDir = true → name = "keys" ∨ name = "LICENSES") ∧
      ∀ size, item = .file size → size ≤ o.maxBlobSize
  keys : ∀ id, ("keys", .dir id) ∈ (trees.root commit).entries →
    ∀ name item, (name, item) ∈ (trees.tree id).entries → item.isDir = true ∧ name = "pgp"
  pgp : ∀ id, At trees.tree (trees.root commit) ["keys", "pgp"] (.dir id) →
    ∀ name item, (name, item) ∈ (trees.tree id).entries →
      item.isFile = true ∧ endsWith ".asc" name = true ∧
        ∀ size, item = .file size → size ≤ o.maxBlobSize
  licenses : ∀ id, ("LICENSES", .dir id) ∈ (trees.root commit).entries →
    ∀ name item, (name, item) ∈ (trees.tree id).entries → item.isFile = true

section

variable {o : Options} {trees : Trees} {commit : Commit}

/-! ### The checks read back -/

theorem dieCommit_ne_ok (message : String) : dieCommit trees commit message ≠ .ok () := by
  intro h
  cases h

theorem ite_die_ok {p : Bool} {message : String} :
    (if p then dieCommit trees commit message else pure ()) = .ok () ↔ p = false := by
  cases p with
  | false => exact iff_of_true rfl rfl
  | true =>
      refine iff_of_false ?_ (by simp)
      exact dieCommit_ne_ok message

/-- A condition that is checked, and what comes after it. -/
theorem check_ok {p : Bool} {message : String} {rest : Except Failure Unit} :
    (do if p then dieCommit trees commit message
        rest) = .ok () ↔ p = false ∧ rest = .ok () := by
  cases p with
  | false => simp
  | true =>
      refine iff_of_false ?_ (by simp)
      intro h
      cases h

theorem validateBlobSize_ok {item : Item} (h : validateBlobSize o trees commit item = .ok ()) :
    ∀ size, item = .file size → size ≤ o.maxBlobSize := by
  rintro size rfl
  by_contra hlarge
  simp only [validateBlobSize] at h
  rw [if_pos (by omega)] at h
  exact dieCommit_ne_ok _ h

theorem validateRoot_ok (h : validateRoot o trees commit = .ok ()) :
    ∀ name item, (name, item) ∈ (trees.root commit).entries →
      (item.isDir = true → name = "keys" ∨ name = "LICENSES") ∧
        ∀ size, item = .file size → size ≤ o.maxBlobSize := by
  intro name item hentry
  have hstep := Table.forM_eq_ok_iff.mp h (name, item) hentry
  obtain ⟨hdir, hsize⟩ := check_ok.mp hstep
  refine ⟨fun hisdir => ?_, validateBlobSize_ok hsize⟩
  rw [hisdir, Bool.true_and, Bool.not_eq_false', List.contains_iff_mem] at hdir
  simpa using hdir

/-- What is gone through is a tree. -/
theorem iterate_ok {item : Item} {entries : List (String × Item)}
    (h : trees.iterate item = .ok entries) :
    ∃ id, item = .dir id ∧ entries = (trees.tree id).entries := by
  cases item with
  | dir id => exact ⟨id, rfl, (Except.ok.inj h).symm⟩
  | file size => cases h
  | foreign => cases h

theorem validatePgp_ok (h : validatePgp o trees commit = .ok ()) {pgp : Item}
    (hpgp : trees.lookup commit ["keys", "pgp"] = some pgp) :
    ∃ id, pgp = .dir id ∧ ∀ name item, (name, item) ∈ (trees.tree id).entries →
      item.isFile = true ∧ endsWith ".asc" name = true ∧
        ∀ size, item = .file size → size ≤ o.maxBlobSize := by
  unfold validatePgp at h
  rw [hpgp] at h
  obtain ⟨entries, hiterate, hloop⟩ := Table.bind_eq_ok_iff.mp h
  obtain ⟨id, rfl, rfl⟩ := iterate_ok hiterate
  refine ⟨id, rfl, fun name item hentry => ?_⟩
  obtain ⟨hkey, hsize⟩ := check_ok.mp (Table.forM_eq_ok_iff.mp hloop (name, item) hentry)
  rw [Bool.or_eq_false_iff, Bool.not_eq_false', Bool.not_eq_false'] at hkey
  exact ⟨hkey.1, hkey.2, validateBlobSize_ok hsize⟩

theorem validateKeys_ok (h : validateKeys o trees commit = .ok ()) {keys : Item}
    (hkeys : trees.lookup commit ["keys"] = some keys) :
    (∃ id, keys = .dir id ∧ ∀ name item, (name, item) ∈ (trees.tree id).entries →
      item.isDir = true ∧ name = "pgp") ∧ validatePgp o trees commit = .ok () := by
  unfold validateKeys at h
  rw [hkeys] at h
  obtain ⟨entries, hiterate, hrest⟩ := Table.bind_eq_ok_iff.mp h
  obtain ⟨id, rfl, rfl⟩ := iterate_ok hiterate
  obtain ⟨_, hloop, hpgp⟩ := Table.bind_eq_ok_iff.mp hrest
  refine ⟨⟨id, rfl, fun name item hentry => ?_⟩, hpgp⟩
  have hkey := ite_die_ok.mp (Table.forM_eq_ok_iff.mp hloop (name, item) hentry)
  simpa using hkey

theorem validateLicenses_ok {check : Commit → LicenseCheck}
    (h : validateLicenses o trees check commit = .ok ()) {licenses : Item}
    (hlicenses : trees.lookup commit ["LICENSES"] = some licenses) :
    ∃ id, licenses = .dir id ∧ ∀ name item, (name, item) ∈ (trees.tree id).entries →
      item.isFile = true := by
  unfold validateLicenses at h
  rw [hlicenses] at h
  obtain ⟨entries, hiterate, hrest⟩ := Table.bind_eq_ok_iff.mp h
  obtain ⟨id, rfl, rfl⟩ := iterate_ok hiterate
  obtain ⟨_, hloop, -⟩ := Table.bind_eq_ok_iff.mp hrest
  refine ⟨id, rfl, fun name item hentry => ?_⟩
  have hfile := ite_die_ok.mp (Table.forM_eq_ok_iff.mp hloop (name, item) hentry)
  rwa [Bool.not_eq_false'] at hfile

theorem validateLicenseNames_ok {acceptableBasenames : List String}
    (h : validateLicenseNames trees acceptableBasenames commit = .ok ()) {licenses : Item}
    (hlicenses : trees.lookup commit ["LICENSES"] = some licenses) :
    ∃ id, licenses = .dir id ∧ ∀ name item, (name, item) ∈ (trees.tree id).entries →
      item.isFile = true := by
  unfold validateLicenseNames at h
  rw [hlicenses] at h
  obtain ⟨entries, hiterate, hloop⟩ := Table.bind_eq_ok_iff.mp h
  obtain ⟨id, rfl, rfl⟩ := iterate_ok hiterate
  refine ⟨id, rfl, fun name item hentry => ?_⟩
  obtain ⟨hfile, -⟩ := check_ok.mp (Table.forM_eq_ok_iff.mp hloop (name, item) hentry)
  rw [Bool.or_eq_false_iff, Bool.not_eq_false'] at hfile
  exact hfile.1

theorem licenses_ok {hook : Hook} (h : hook.licenses o trees commit = .ok ()) {licenses : Item}
    (hlicenses : trees.lookup commit ["LICENSES"] = some licenses) :
    ∃ id, licenses = .dir id ∧ ∀ name item, (name, item) ∈ (trees.tree id).entries →
      item.isFile = true := by
  cases hook with
  | update check => exact validateLicenses_ok h hlicenses
  | updateLegacy acceptableBasenames => exact validateLicenseNames_ok h hlicenses

theorem lookup_one {name : String} {item : Item} :
    trees.lookup commit [name] = some item ↔ (name, item) ∈ (trees.root commit).entries := by
  unfold Trees.lookup
  rw [lookup_eq_some, at_singleton]

theorem checked_of_validateCommit {hook : Hook}
    (h : validateCommit o trees hook commit = .ok ()) : Checked o trees commit := by
  obtain ⟨-, hrest⟩ := check_ok.mp h
  obtain ⟨_, hroot, hrest⟩ := Table.bind_eq_ok_iff.mp hrest
  obtain ⟨_, hkeys, hlicenses⟩ := Table.bind_eq_ok_iff.mp hrest
  refine ⟨validateRoot_ok hroot, ?_, ?_, ?_⟩
  · intro id hid
    obtain ⟨⟨id', hdir, hentries⟩, -⟩ := validateKeys_ok hkeys (lookup_one.mpr hid)
    cases hdir
    exact hentries
  · intro id hat
    have hkeysat := at_cons.mp hat
    rcases hkeysat with ⟨hnil, -⟩ | ⟨id', hid', -⟩
    · cases hnil
    · obtain ⟨-, hpgp⟩ := validateKeys_ok hkeys (lookup_one.mpr hid')
      obtain ⟨id'', hdir, hentries⟩ := validatePgp_ok hpgp (lookup_eq_some.mpr hat)
      cases hdir
      exact hentries
  · intro id hid
    obtain ⟨id', hdir, hentries⟩ := licenses_ok hlicenses (lookup_one.mpr hid)
    cases hdir
    exact hentries

/-! ### Down the tree -/

/-- Where a path can lead. -/
theorem Checked.at_cases (h : Checked o trees commit) {path : List String} {item : Item}
    (hat : At trees.tree (trees.root commit) path item) :
    (∃ name, path = [name] ∧ (name, item) ∈ (trees.root commit).entries) ∨
      (path = ["keys", "pgp"] ∧ item.isDir = true) ∨
      (∃ name, path = ["keys", "pgp", name] ∧ item.isFile = true ∧ endsWith ".asc" name = true ∧
        ∀ size, item = .file size → size ≤ o.maxBlobSize) ∨
      ∃ name, path = ["LICENSES", name] ∧ item.isFile = true := by
  cases hat with
  | entry hentry => exact Or.inl ⟨_, rfl, hentry⟩
  | @inside _ name id path _ hdir hpath =>
      rcases (h.root name (.dir id) hdir).1 rfl with rfl | rfl
      · -- Below `keys/` there is nothing but `pgp/`.
        cases hpath with
        | entry hentry =>
            obtain ⟨hisdir, rfl⟩ := h.keys id hdir _ _ hentry
            exact Or.inr (Or.inl ⟨rfl, hisdir⟩)
        | @inside _ name' id' path _ hdir' hpath' =>
            obtain ⟨-, rfl⟩ := h.keys id hdir _ _ hdir'
            have hpgp := h.pgp id' (.inside hdir (.entry hdir'))
            have hflat : ∀ e ∈ (trees.tree id').entries, e.2.isDir = false := by
              intro e he
              obtain ⟨size, hsize⟩ := Item.isFile_iff.mp (hpgp e.1 e.2 he).1
              rw [hsize]
              rfl
            obtain ⟨name, rfl, hentry⟩ := at_of_flat hflat hpath'
            exact Or.inr (Or.inr (Or.inl ⟨name, rfl, hpgp name item hentry⟩))
      · have hfiles := h.licenses id hdir
        have hflat : ∀ e ∈ (trees.tree id).entries, e.2.isDir = false := by
          intro e he
          obtain ⟨size, hsize⟩ := Item.isFile_iff.mp (hfiles e.1 e.2 he)
          rw [hsize]
          rfl
        obtain ⟨name, rfl, hentry⟩ := at_of_flat hflat hpath
        exact Or.inr (Or.inr (Or.inr ⟨name, rfl, hfiles name item hentry⟩))

theorem Checked.dirs (h : Checked o trees commit) {path : List String} {id : Oid}
    (hat : At trees.tree (trees.root commit) path (.dir id)) :
    path ∈ [["keys"], ["keys", "pgp"], ["LICENSES"]] := by
  rcases h.at_cases hat with ⟨name, rfl, hentry⟩ | ⟨rfl, -⟩ | ⟨name, -, hfile, -⟩ |
    ⟨name, -, hfile⟩
  · rcases (h.root name _ hentry).1 rfl with rfl | rfl
    · simp
    · simp
  · simp
  · cases hfile
  · cases hfile

theorem Checked.pgpKeys (h : Checked o trees commit) {name : String} {path : List String}
    {item : Item} (hat : At trees.tree (trees.root commit) ("keys" :: "pgp" :: name :: path) item) :
    path = [] ∧ item.isFile = true ∧ endsWith ".asc" name = true := by
  rcases h.at_cases hat with ⟨name', heq, -⟩ | ⟨heq, -⟩ | ⟨name', heq, hfile, hasc, -⟩ |
    ⟨name', heq, -⟩
  · cases heq
  · cases heq
  · cases heq
    exact ⟨rfl, hfile, hasc⟩
  · simp at heq

/-- The tree of a commit that has been checked is as it should be but for the licenses. -/
theorem Checked.smallLicenses_iff (h : Checked o trees commit) :
    Shapely o trees commit ↔ SmallLicenses o trees commit := by
  constructor
  · intro hshapely name size hat
    exact hshapely.sizes _ size hat
  · intro hsmall
    refine ⟨?_, fun path id hat => h.dirs hat, fun name path item hat => h.pgpKeys hat⟩
    intro path size hat
    rcases h.at_cases hat with ⟨name, -, hentry⟩ | ⟨-, hdir⟩ | ⟨name, -, -, -, hsize⟩ |
      ⟨name, rfl, -⟩
    · exact (h.root name _ hentry).2 size rfl
    · cases hdir
    · exact hsize size rfl
    · exact hsmall name size hat

/-! ### The push -/

/-- The loop goes through the commits that are introduced. -/
theorem checked_of_validates {objects : Objects}
    {srcinfo : Commit → List GitUpdate.PackageData} {hook : Hook} {checks : Checks}
    {pkgbase : String} {allowOverwrite : Bool} {old : Option Commit} {new c : Commit}
    (h : (objects.repo srcinfo (validate o trees hook checks)).validates pkgbase allowOverwrite old
      new = true) (hc : Introduces objects old new c) : Checked o trees c := by
  obtain ⟨_, hok⟩ := Table.exists_of_isOk h
  obtain ⟨_, -, hok⟩ := Table.bind_eq_ok_iff.mp hok
  obtain ⟨commits, hwalker, hvalid⟩ := Table.bind_eq_ok_iff.mp hok
  obtain ⟨hnew, hold, rfl⟩ := ReceivePack.walker_ok hwalker
  have hmem : c ∈ objects.walk new old.toList := by
    refine (objects.mem_walk new old.toList c hnew hold).mpr ⟨hc.1, ?_⟩
    rintro ⟨old', hold', hreach⟩
    exact hc.2 old' (Option.mem_toList.mp hold') hreach
  obtain ⟨-, hrest⟩ := check_ok.mp hvalid
  obtain ⟨_, -, hrest⟩ := Table.bind_eq_ok_iff.mp hrest
  obtain ⟨_, hloop, -⟩ := Table.bind_eq_ok_iff.mp hrest
  exact checked_of_validateCommit (Table.forM_eq_ok_iff.mp hloop c hmem)

end

/--
**The trees of an accepted push.**  Every commit that it introduces has small blobs only, no
directories but `keys/`, `keys/pgp/` and `LICENSES/`, and nothing but `.asc` files in
`keys/pgp/`, exactly where none of them has a license that is larger than a blob may be.  This is
so of both hooks.
-/
theorem shapely_iff (o : Options) (trees : Trees) (hook : Hook) (checks : Checks)
    (objects : Objects) (srcinfo : Commit → List GitUpdate.PackageData) (pkgbase : String)
    (allowOverwrite : Bool) (old : Option Commit) (new : Commit)
    (haccepted : (objects.repo srcinfo (validate o trees hook checks)).validates pkgbase
      allowOverwrite old new = true) :
    (∀ c, Introduces objects old new c → Shapely o trees c) ↔
      ∀ c, Introduces objects old new c → SmallLicenses o trees c :=
  forall₂_congr fun _ hc => (checked_of_validates haccepted hc).smallLicenses_iff

/-- `c2` comes after `c1`, and has a license of so many bytes. -/
def licenseTrees (size : Nat) : Trees where
  root c :=
    if c = "c2" then
      { entries := [("PKGBUILD", .file 400), (".SRCINFO", .file 300), ("LICENSES", .dir "l")]
        nodup := by decide }
    else { entries := [("PKGBUILD", .file 400), (".SRCINFO", .file 300)], nodup := by decide }
  tree _ := { entries := [("0BSD.txt", .file size)], nodup := List.nodup_singleton _ }

def twoCommits : Objects :=
  .ofLog (fun c => if c = "c2" then ["c1"] else []) ["c2", "c1"] (by decide) (by decide)

/-- A hook that asks for nothing else. -/
def noChecks : Checks where
  metadata _ _ _ := .ok ()
  names _ _ _ := .ok ()

theorem shapely_iff_c2 :
    (∀ c, Introduces twoCommits (some "c1") "c2" c →
        Shapely Options.defaults (licenseTrees 643) c) ↔
      ∀ c, Introduces twoCommits (some "c1") "c2" c →
        SmallLicenses Options.defaults (licenseTrees 643) c :=
  shapely_iff Options.defaults (licenseTrees 643) (.updateLegacy ["0BSD"]) noChecks twoCommits
    ReceivePack.fooSrcinfo "foo" false (some "c1") "c2" (by decide +kernel)

/-- A license of a gigabyte is accepted. -/
theorem not_shapely_c2 :
    (twoCommits.repo ReceivePack.fooSrcinfo (validate Options.defaults (licenseTrees 1073741824)
        (.update fun _ => .passed) noChecks)).validates "foo" false (some "c1") "c2" = true ∧
      Introduces twoCommits (some "c1") "c2" "c2" ∧
      ¬Shapely Options.defaults (licenseTrees 1073741824) "c2" := by
  refine ⟨by decide +kernel, ?_, ?_⟩
  · refine ⟨Ancestry.Reach.refl _, fun c hc hreach => ?_⟩
    cases hc
    rcases Ancestry.reach_iff_parent.mp hreach with heq | ⟨p, hp, -⟩
    · simp at heq
    · simp [twoCommits, Objects.ofLog] at hp
  · intro h
    have hdir : ("LICENSES", .dir "l") ∈ ((licenseTrees 1073741824).root "c2").entries := by
      simp [licenseTrees]
    have hlicense : ("0BSD.txt", .file 1073741824) ∈ ((licenseTrees 1073741824).tree "l").entries := by
      simp [licenseTrees]
    have hsize : 1073741824 ≤ 256000 := h.sizes _ _ (.inside hdir (.entry hlicense))
    omega

end Aurweb.CommitTrees
