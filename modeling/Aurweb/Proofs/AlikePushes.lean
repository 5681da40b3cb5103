/-
Two pushes of the same packages, with other URLs and other entries.

Nothing the hook decides depends on the URL of a package or on what its sources, dependencies
and relations are.  So two such pushes end alike, and leave the same database but for these:
every package, license and group has the same row under the same id.
-/
import Aurweb.GitUpdate
import Aurweb.Lib.Mirror

namespace Aurweb.GitUpdate

open Txn Txn.Prog

/-- The database without the URLs and without the entries of the packages. -/
def withoutEntries (db : Db) : Db :=
  { db with
    packages := db.packages.map fun p => { p with url := none }
    packageSources := [], packageDepends := [], packageRelations := [] }

/-- Two packages of which a push sees no difference but in the URL and the entries. -/
structure SameApart (d e : PackageData) : Prop where
  name : d.name = e.name
  version : d.version = e.version
  description : d.description = e.description
  licenses : d.licenses = e.licenses
  groups : d.groups = e.groups

section

variable {cfg : Config} {d e : PackageData}

/-! ### Storing packages -/

theorem mirrors_insertPackage (h : SameApart d e) (baseID : Nat) (version : String) :
    Mirrors withoutEntries (insertPackage cfg baseID d version)
      (insertPackage cfg baseID e version) := by
  unfold insertPackage insertUnique
  rw [h.name, h.description]
  refine Mirrors.constrained (V := fun t => t.packages.any fun p => cfg.sameName p.name e.name)
    (F := fun t => (t.nextID, { t with
      packages := t.packages ++ [{
        id := t.nextID, packageBaseID := baseID, name := e.name, version
        description := e.description, url := none }]
      nextID := t.nextID + 1 })) ?_ ?_ ?_
  · intro s
    simp [withoutEntries, Function.comp_def]
  · intro s
    simp [withoutEntries]
  · intro s
    simp [withoutEntries]

/-- What a pass stores is not to be seen. -/
theorem hidden_storePass (pkgID : Nat) (p : Pass) :
    Hidden withoutEntries (storePass pkgID p) := by
  refine Hidden.bind (Hidden.forEach fun s _ => Hidden.write fun _ => rfl) ?_
  refine Hidden.bind (Hidden.forEach fun t _ => ?_) (Hidden.forEach fun t _ => ?_)
  · exact Hidden.bind Hidden.external (Hidden.forEach fun d _ => Hidden.write fun _ => rfl)
  · exact Hidden.bind Hidden.external (Hidden.forEach fun r _ => Hidden.write fun _ => rfl)

theorem mirrors_storeNamed {lookup : Db → Option Nat} {insertName : Hook Nat}
    {insertLink : Nat → Hook Unit} (hlookup : ∀ s, lookup s = lookup (withoutEntries s))
    (hname : Mirrors withoutEntries insertName insertName)
    (hlink : ∀ id, Mirrors withoutEntries (insertLink id) (insertLink id)) :
    Mirrors withoutEntries (storeNamed lookup insertName insertLink)
      (storeNamed lookup insertName insertLink) := by
  refine Mirrors.bind (Mirrors.query hlookup) fun row => ?_
  cases row with
  | some id => exact hlink id
  | none => exact Mirrors.bind hname fun id => Mirrors.bind Mirrors.commit fun _ => hlink id

theorem mirrors_storeLicense (pkgID : Nat) (name : String) :
    Mirrors withoutEntries (storeLicense cfg pkgID name) (storeLicense cfg pkgID name) := by
  refine mirrors_storeNamed (fun _ => rfl) ?_ fun id => ?_
  · exact Mirrors.constrained (V := fun t => t.licenses.any fun l => cfg.sameName l.name name)
      (F := fun t => (t.nextID, { t with
        licenses := t.licenses ++ [{ id := t.nextID, name }], nextID := t.nextID + 1 }))
      (fun _ => rfl) (fun _ => rfl) fun _ => rfl
  · exact Mirrors.constrained
      (V := fun t => t.packageLicenses.any fun r => r.packageID == pkgID && r.licenseID == id)
      (F := fun t => ((), { t with
        packageLicenses := t.packageLicenses ++ [{ packageID := pkgID, licenseID := id }] }))
      (fun _ => rfl) (fun _ => rfl) fun _ => rfl

theorem mirrors_storeGroup (pkgID : Nat) (name : String) :
    Mirrors withoutEntries (storeGroup cfg pkgID name) (storeGroup cfg pkgID name) := by
  refine mirrors_storeNamed (fun _ => rfl) ?_ fun id => ?_
  · exact Mirrors.constrained (V := fun t => t.groups.any fun g => cfg.sameName g.name name)
      (F := fun t => (t.nextID, { t with
        groups := t.groups ++ [{ id := t.nextID, name }], nextID := t.nextID + 1 }))
      (fun _ => rfl) (fun _ => rfl) fun _ => rfl
  · exact Mirrors.constrained
      (V := fun t => t.packageGroups.any fun r => r.packageID == pkgID && r.groupID == id)
      (F := fun t => ((), { t with
        packageGroups := t.packageGroups ++ [{ packageID := pkgID, groupID := id }] }))
      (fun _ => rfl) (fun _ => rfl) fun _ => rfl

theorem mirrors_storePackage (h : SameApart d e) (baseID : Nat) :
    Mirrors withoutEntries (storePackage cfg baseID d) (storePackage cfg baseID e) := by
  unfold storePackage storeFields
  rw [h.version, h.licenses, h.groups]
  refine Mirrors.bind (Mirrors.ofExcept _) fun version => ?_
  refine Mirrors.bind (mirrors_insertPackage h baseID version) fun pkgID => ?_
  refine Mirrors.bind Mirrors.commit fun _ => ?_
  refine Mirrors.bind ?_ fun _ => Mirrors.bind ?_ fun _ => ?_
  · have hidden : ∀ passes : List Pass,
        Hidden withoutEntries (forEach passes (storePass pkgID)) :=
      fun passes => Hidden.forEach fun p _ => hidden_storePass pkgID p
    exact (hidden d.passes).mirrors (hidden e.passes)
  · exact Mirrors.forEach_self fun name _ => mirrors_storeLicense pkgID name
  · exact Mirrors.forEach_self fun name _ => mirrors_storeGroup pkgID name

/-! ### `save_metadata` -/

theorem ownedBy_withoutEntries (s : Db) (baseID pkgID : Nat) :
    ownedBy (withoutEntries s) baseID pkgID = ownedBy s baseID pkgID := by
  simp [ownedBy, withoutEntries, Function.comp_def]

theorem withoutEntries_deleteLicenses (baseID : Nat) (s : Db) :
    withoutEntries (deleteLicenses baseID s) = deleteLicenses baseID (withoutEntries s) := by
  simp only [deleteLicenses, ownedBy_withoutEntries]
  rfl

theorem withoutEntries_deleteGroups (baseID : Nat) (s : Db) :
    withoutEntries (deleteGroups baseID s) = deleteGroups baseID (withoutEntries s) := by
  simp only [deleteGroups, ownedBy_withoutEntries]
  rfl

theorem withoutEntries_deletePackages (baseID : Nat) (s : Db) :
    withoutEntries (s.deletePackages (·.packageBaseID == baseID)) =
      (withoutEntries s).deletePackages (·.packageBaseID == baseID) := by
  simp [withoutEntries, Db.deletePackages, Table.delete, List.filter_map, Function.comp_def]

theorem mirrors_clearPackages (baseID : Nat) :
    Mirrors withoutEntries (clearPackages baseID) (clearPackages baseID) := by
  refine Mirrors.bind (Mirrors.write (F := id) fun _ => rfl) fun _ => ?_
  refine Mirrors.bind (Mirrors.write (F := id) fun _ => rfl) fun _ => ?_
  refine Mirrors.bind (Mirrors.write (F := id) fun _ => rfl) fun _ => ?_
  refine Mirrors.bind (Mirrors.write (withoutEntries_deleteLicenses baseID)) fun _ => ?_
  refine Mirrors.bind (Mirrors.write (withoutEntries_deleteGroups baseID)) fun _ => ?_
  exact Mirrors.write (F := fun t => t.deletePackages (·.packageBaseID == baseID))
    (withoutEntries_deletePackages baseID)

theorem mirrors_insertNotification (baseID uid : Nat) :
    Mirrors withoutEntries (insertNotification baseID uid) (insertNotification baseID uid) :=
  Mirrors.constrained (V := fun t => hasNotification t baseID uid)
    (F := fun t => ((), { t with
      packageNotifications :=
        t.packageNotifications ++ [{ packageBaseID := baseID, userID := uid }] }))
    (fun _ => rfl) (fun _ => rfl) fun _ => rfl

theorem mirrors_finish (baseID uid : Nat) (wasOrphan : Bool) :
    Mirrors withoutEntries (finish baseID uid wasOrphan) (finish baseID uid wasOrphan) := by
  refine Mirrors.bind (Mirrors.when ?_) fun _ => Mirrors.commit
  refine Mirrors.bind (Mirrors.query (F := fun t => hasNotification t baseID uid) fun _ => rfl)
    fun listed => ?_
  exact Mirrors.when (mirrors_insertNotification baseID uid)

theorem mirrors_saveMetadata {ds es : List PackageData} (h : List.Forall₂ SameApart ds es)
    (pkgbase user : String) (now : Nat) :
    Mirrors withoutEntries (saveMetadata cfg pkgbase user ds now)
      (saveMetadata cfg pkgbase user es now) := by
  refine Mirrors.bind (Mirrors.query (F := baseByName cfg pkgbase) fun _ => rfl) fun row => ?_
  cases row with
  | none => exact Mirrors.raise _
  | some base =>
      refine Mirrors.bind (Mirrors.query (F := userByName cfg user) fun _ => rfl)
        fun packager => ?_
      cases packager with
      | none => exact Mirrors.raise _
      | some u =>
          refine Mirrors.bind (Mirrors.write (F := touchBase base.id u.id now) fun _ => rfl)
            fun _ => ?_
          refine Mirrors.bind (Mirrors.write (F := takeOver base.id u.id) fun _ => rfl)
            fun _ => ?_
          refine Mirrors.bind (mirrors_clearPackages base.id) fun _ => ?_
          refine Mirrors.bind (Mirrors.forEach ?_) fun _ => mirrors_finish _ _ _
          exact h.imp fun d e hde => mirrors_storePackage hde base.id

/-! ### `main` -/

theorem mirrors_createPkgbase (pkgbase user : String) (now : Nat) :
    Mirrors withoutEntries (createPkgbase cfg pkgbase user now)
      (createPkgbase cfg pkgbase user now) := by
  refine Mirrors.bind (Mirrors.query (F := userByName cfg user) fun _ => rfl) fun row => ?_
  cases row with
  | none => exact Mirrors.raise _
  | some u =>
      refine Mirrors.bind ?_ fun baseID =>
        Mirrors.bind (mirrors_insertNotification baseID u.id) fun _ => Mirrors.commit
      exact Mirrors.constrained
        (V := fun t => t.packageBases.any fun b => cfg.sameName b.name pkgbase)
        (F := fun t => (t.nextID, { t with
          packageBases := t.packageBases ++ [
            { id := t.nextID, name := pkgbase, numVotes := 0, outOfDateTS := none
              flaggerComment := "", submittedTS := now, modifiedTS := now, flaggerUID := none
              submitterUID := some u.id, maintainerUID := some u.id, packagerUID := none }]
          nextID := t.nextID + 1 }))
        (fun _ => rfl) (fun _ => rfl) fun _ => rfl

theorem mirrors_warnOrDie (privileged : Bool) (message : String) :
    Mirrors withoutEntries (warnOrDie privileged message) (warnOrDie privileged message) := by
  cases privileged with
  | true => exact Mirrors.pure ()
  | false => exact Mirrors.raise _

theorem mirrors_checkPackage (h : d.name = e.name) (privileged : Bool) (blacklist : List String)
    (providers : List OfficialProvider) (baseID : Option Nat) :
    Mirrors withoutEntries (checkPackage cfg privileged blacklist providers baseID d)
      (checkPackage cfg privileged blacklist providers baseID e) := by
  unfold checkPackage
  rw [h]
  refine Mirrors.bind (Mirrors.when (mirrors_warnOrDie _ _)) fun _ => Mirrors.bind ?_ fun _ => ?_
  · unfold checkProvider
    cases provider? providers e.name with
    | none => exact Mirrors.pure ()
    | some repo => exact mirrors_warnOrDie _ _
  · refine Mirrors.bind (Mirrors.query (F := fun t => overwrites cfg t baseID e.name) fun s => ?_)
      fun taken => Mirrors.when (Mirrors.raise _)
    simp [overwrites, withoutEntries, Function.comp_def]

theorem mirrors_publish (user : String) :
    Mirrors withoutEntries (publish cfg user) (publish cfg user) := by
  refine Mirrors.bind Mirrors.external fun _ => Mirrors.bind Mirrors.external fun _ => ?_
  refine Mirrors.bind (Mirrors.query (F := userByName cfg user) fun _ => rfl) fun row => ?_
  cases row with
  | none => exact Mirrors.raise _
  | some u => exact Mirrors.external

/-- **Pushes of packages that are the same apart from URLs and entries mirror each other.** -/
theorem mirrors_main {push : Push} {packages : List PackageData}
    (h : List.Forall₂ SameApart push.packages packages) :
    Mirrors withoutEntries (main cfg push) (main cfg { push with packages }) := by
  refine Mirrors.bind (Mirrors.query (F := baseByName cfg push.pkgbase) fun _ => rfl)
    fun row => ?_
  refine Mirrors.bind (Mirrors.query (F := (·.packageBlacklist)) fun _ => rfl)
    fun blacklist => ?_
  refine Mirrors.bind (Mirrors.when (mirrors_warnOrDie _ _)) fun _ => ?_
  refine Mirrors.bind (Mirrors.query (F := (·.officialProviders)) fun _ => rfl)
    fun providers => ?_
  refine Mirrors.bind (Mirrors.forEach ?_) fun _ => ?_
  · exact h.imp fun d e hde => mirrors_checkPackage hde.name _ _ _ _
  refine Mirrors.bind (Mirrors.when (mirrors_createPkgbase _ _ _)) fun _ => ?_
  exact Mirrors.bind (mirrors_saveMetadata h _ _ _) fun _ => mirrors_publish _

end

end Aurweb.GitUpdate
