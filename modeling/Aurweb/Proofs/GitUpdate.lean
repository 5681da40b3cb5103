/-
What a push leaves behind when it fails.

The hook commits inside its loop: after every package row, and again whenever it meets a
license or a group it has not seen.  What comes before the first of those commits is
undone when the hook fails, and what has been committed stays: the old packages of the
base are gone by then, or the base is new.  So a failing push is atomic exactly when it
is turned away by a check or fails no later than that commit, and
`unchanged_iff` says so for every database, every push and every pattern of failures.
-/
import Aurweb.GitUpdate

namespace Aurweb.GitUpdate

open Txn Txn.Prog

/-! ### Storing packages -/

/-- What a statement of `storePackage` does: one more row in one of its tables. -/
inductive Stores (cfg : Config) (db : Db) : Db → Prop
  | package (p : Package) (hid : p.id = db.nextID)
      (hname : ∀ q ∈ db.packages, cfg.sameName q.name p.name = false) :
      Stores cfg db { db with packages := db.packages ++ [p], nextID := db.nextID + 1 }
  | source (r : PackageSource) :
      Stores cfg db { db with packageSources := db.packageSources ++ [r] }
  | dependency (r : PackageDependency) :
      Stores cfg db { db with packageDepends := db.packageDepends ++ [r] }
  | relation (r : PackageRelation) :
      Stores cfg db { db with packageRelations := db.packageRelations ++ [r] }
  | license (r : License) (hid : r.id = db.nextID) :
      Stores cfg db { db with licenses := db.licenses ++ [r], nextID := db.nextID + 1 }
  | packageLicense (r : PackageLicense) :
      Stores cfg db { db with packageLicenses := db.packageLicenses ++ [r] }
  | group (r : Group) (hid : r.id = db.nextID) :
      Stores cfg db { db with groups := db.groups ++ [r], nextID := db.nextID + 1 }
  | packageGroup (r : PackageGroup) :
      Stores cfg db { db with packageGroups := db.packageGroups ++ [r] }

section Storing

variable {cfg : Config} {P : Db → Prop} (hP : ∀ db db', Stores cfg db db' → P db → P db')
include hP

theorem preserves_insertPackage (baseID : Nat) (d : PackageData) (version : String) :
    Preserves P (insertPackage cfg baseID d version) := by
  refine Preserves.constrained fun db hnew => hP _ _ (.package _ rfl ?_)
  simpa using hnew

theorem preserves_storePass (pkgID : Nat) (p : Pass) : Preserves P (storePass pkgID p) := by
  have hsource : ∀ s ∈ p.sources, Preserves P (insertSource pkgID s) := fun s _ =>
    Preserves.write fun db => hP _ _ (.source _)
  have hdep : ∀ t, ∀ d ∈ p.depends t, Preserves P (insertDependency pkgID t d) := fun t d _ =>
    Preserves.write fun db => hP _ _ (.dependency _)
  have hrel : ∀ t, ∀ r ∈ p.relations t, Preserves P (insertRelation pkgID t r) := fun t r _ =>
    Preserves.write fun db => hP _ _ (.relation _)
  refine Preserves.bind (Preserves.forEach hsource) fun _ => Preserves.bind ?_ fun _ => ?_
  · exact Preserves.forEach fun t _ =>
      Preserves.bind Preserves.external fun _ => Preserves.forEach (hdep t)
  · exact Preserves.forEach fun t _ =>
      Preserves.bind Preserves.external fun _ => Preserves.forEach (hrel t)

omit hP in
theorem preserves_storeNamed {lookup : Db → Option Nat} {insertName : Hook Nat}
    {insertLink : Nat → Hook Unit} (hname : Preserves P insertName)
    (hlink : ∀ id, Preserves P (insertLink id)) :
    Preserves P (storeNamed lookup insertName insertLink) := by
  refine Preserves.bind (Preserves.query _) fun row => ?_
  cases row with
  | some id => exact hlink id
  | none =>
      exact Preserves.bind hname fun id => Preserves.bind Preserves.commit fun _ => hlink id

theorem preserves_storeLicense (pkgID : Nat) (name : String) :
    Preserves P (storeLicense cfg pkgID name) := by
  refine preserves_storeNamed ?_ fun id => ?_
  · exact Preserves.constrained fun _ _ => hP _ _ (.license _ rfl)
  · exact Preserves.constrained fun _ _ => hP _ _ (.packageLicense _)

theorem preserves_storeGroup (pkgID : Nat) (name : String) :
    Preserves P (storeGroup cfg pkgID name) := by
  refine preserves_storeNamed ?_ fun id => ?_
  · exact Preserves.constrained fun _ _ => hP _ _ (.group _ rfl)
  · exact Preserves.constrained fun _ _ => hP _ _ (.packageGroup _)

theorem preserves_storeFields (d : PackageData) (pkgID : Nat) :
    Preserves P (storeFields cfg d pkgID) := by
  refine Preserves.bind (Preserves.forEach fun p _ => preserves_storePass hP pkgID p) fun _ => ?_
  refine Preserves.bind (Preserves.forEach fun name _ => ?_) fun _ => ?_
  · exact preserves_storeLicense hP pkgID name
  · exact Preserves.forEach fun name _ => preserves_storeGroup hP pkgID name

theorem preserves_storePackage (baseID : Nat) (d : PackageData) :
    Preserves P (storePackage cfg baseID d) := by
  refine Preserves.bind (Preserves.ofExcept _) fun version => ?_
  refine Preserves.bind (preserves_insertPackage hP baseID d version) fun pkgID => ?_
  exact Preserves.bind Preserves.commit fun _ => preserves_storeFields hP d pkgID

end Storing

/-! ### The rule of the hook -/

/-- The tables of packages, whatever is deleted from them. -/
def withPackages (db : Db) (sources : List PackageSource) (depends : List PackageDependency)
    (relations : List PackageRelation) (licenses : List PackageLicense)
    (groups : List PackageGroup) (packages : List Package) : Db :=
  { db with
    packageSources := sources, packageDepends := depends, packageRelations := relations
    packageLicenses := licenses, packageGroups := groups, packages := packages }

/-- What each statement of the hook has to keep of `P`. -/
structure KeptBy (cfg : Config) (push : Push) (P : Db → Prop) : Prop where
  stores : ∀ {db db'}, Stores cfg db db' → P db → P db'
  clear : ∀ {db src dep rel lic grp pkg}, pkg.Sublist db.packages → P db →
    P (withPackages db src dep rel lic grp pkg)
  notify : ∀ {db : Db} {r}, P db →
    P { db with packageNotifications := db.packageNotifications ++ [r] }
  /-- The base and the user were looked up in states that had the property as well. -/
  touch : ∀ {db₁ db base} (uid : Nat), P db₁ → baseByName cfg push.pkgbase db₁ = some base →
    P db → P (touchBase base.id uid push.now db)
  takeOver : ∀ {db₁ db₂ db base u}, P db₁ → baseByName cfg push.pkgbase db₁ = some base →
    P db₂ → userByName cfg push.user db₂ = some u → P db → P (takeOver base.id u.id db)
  create : ∀ {db₁ db u b}, P db₁ → userByName cfg push.user db₁ = some u → P db →
    (∀ b ∈ db.packageBases, cfg.sameName b.name push.pkgbase = false) →
    b.id = db.nextID → b.name = push.pkgbase → b.maintainerUID = some u.id →
    b.numVotes = 0 → P { db with packageBases := db.packageBases ++ [b], nextID := db.nextID + 1 }

section Rule

variable {P : Db → Prop}

theorem preserves_finish
    (hP : ∀ db r, P db → P { db with packageNotifications := db.packageNotifications ++ [r] })
    (baseID uid : Nat) (wasOrphan : Bool) : Preserves P (finish baseID uid wasOrphan) := by
  have hinsert : Preserves P (insertNotification baseID uid) :=
    Preserves.constrained fun db _ => hP db _
  refine Preserves.bind ?_ fun _ => Preserves.commit
  exact Preserves.when fun _ => Preserves.bind (Preserves.query _) fun _ =>
    Preserves.when fun _ => hinsert

theorem preserves_publish (cfg : Config) (user : String) : Preserves P (publish cfg user) := by
  have hnotify : Preserves P (updateNotify cfg user) := by
    refine Preserves.bind (Preserves.query _) fun row => ?_
    cases row with
    | none => exact Preserves.raise _
    | some u => exact Preserves.external
  exact Preserves.bind Preserves.external fun _ =>
    Preserves.bind Preserves.external fun _ => hnotify

theorem preserves_warnOrDie (privileged : Bool) (message : String) :
    Preserves P (warnOrDie privileged message) := by
  cases privileged with
  | true => exact Preserves.pure ()
  | false => exact Preserves.raise _

theorem preserves_checkPackage (cfg : Config) (privileged : Bool) (blacklist : List String)
    (providers : List OfficialProvider) (baseID : Option Nat) (d : PackageData) :
    Preserves P (checkPackage cfg privileged blacklist providers baseID d) := by
  refine Preserves.bind (Preserves.when fun _ => preserves_warnOrDie _ _) fun _ => ?_
  refine Preserves.bind ?_ fun _ => ?_
  · unfold checkProvider
    cases provider? providers d.name with
    | none => exact Preserves.pure ()
    | some repo => exact preserves_warnOrDie _ _
  · exact Preserves.bind (Preserves.query _) fun _ => Preserves.when fun _ => Preserves.raise _

variable {cfg : Config} {push : Push} (h : KeptBy cfg push P)
include h

theorem KeptBy.clearPackages (baseID : Nat) : Preserves P (clearPackages baseID) := by
  have hkept : ∀ db : Db, db.packages.Sublist db.packages := fun _ => List.Sublist.refl _
  refine Preserves.bind (Preserves.write fun _ hP => ?_) fun _ => ?_
  · exact h.clear (hkept _) hP
  refine Preserves.bind (Preserves.write fun _ hP => ?_) fun _ => ?_
  · exact h.clear (hkept _) hP
  refine Preserves.bind (Preserves.write fun _ hP => ?_) fun _ => ?_
  · exact h.clear (hkept _) hP
  refine Preserves.bind (Preserves.write fun _ hP => ?_) fun _ => ?_
  · exact h.clear (hkept _) hP
  refine Preserves.bind (Preserves.write fun _ hP => ?_) fun _ => ?_
  · exact h.clear (hkept _) hP
  · exact Preserves.write fun _ hP => h.clear (Table.delete_sublist _ _) hP

theorem KeptBy.saveMetadata :
    Preserves P (saveMetadata cfg push.pkgbase push.user push.packages push.now) := by
  refine Preserves.bind_query fun db₁ h₁ => ?_
  cases hbase : baseByName cfg push.pkgbase db₁ with
  | none => exact Preserves.raise _
  | some base =>
      refine Preserves.bind_query fun db₂ h₂ => ?_
      cases huser : userByName cfg push.user db₂ with
      | none => exact Preserves.raise _
      | some u =>
          refine Preserves.bind (Preserves.write fun _ => h.touch u.id h₁ hbase) fun _ => ?_
          refine Preserves.bind (Preserves.write fun _ hP => ?_) fun _ => ?_
          · exact h.takeOver h₁ hbase h₂ huser hP
          refine Preserves.bind (h.clearPackages base.id) fun _ => ?_
          refine Preserves.bind (Preserves.forEach fun d _ => ?_) fun _ => ?_
          · exact preserves_storePackage (fun _ _ => h.stores) base.id d
          · exact preserves_finish (fun _ _ => h.notify) _ _ _

theorem KeptBy.createPkgbase :
    Preserves P (createPkgbase cfg push.pkgbase push.user push.now) := by
  refine Preserves.bind_query fun db₁ h₁ => ?_
  cases huser : userByName cfg push.user db₁ with
  | none => exact Preserves.raise _
  | some u =>
      refine Preserves.bind (Preserves.constrained fun db hnew hP => ?_) fun baseID => ?_
      · have hnone : ∀ b ∈ db.packageBases, cfg.sameName b.name push.pkgbase = false := by
          simpa using hnew
        exact h.create h₁ huser hP hnone rfl rfl rfl rfl
      · exact Preserves.bind (Preserves.constrained fun _ _ => h.notify) fun _ => Preserves.commit

/-- **The rule.**  Whatever fails, and wherever, the hook keeps what its statements keep. -/
theorem KeptBy.main : Preserves P (main cfg push) := by
  refine Preserves.bind (Preserves.query _) fun row => ?_
  refine Preserves.bind (Preserves.query _) fun blacklist => ?_
  refine Preserves.bind (Preserves.when fun _ => preserves_warnOrDie _ _) fun _ => ?_
  refine Preserves.bind (Preserves.query _) fun providers => ?_
  refine Preserves.bind (Preserves.forEach fun d _ => ?_) fun _ => ?_
  · exact preserves_checkPackage _ _ _ _ _ _
  refine Preserves.bind (Preserves.when fun _ => h.createPkgbase) fun _ => ?_
  exact Preserves.bind h.saveMetadata fun _ => preserves_publish _ _

end Rule

/-! ### What is written after the first commit stays -/

/-- The base that was added is there. -/
def HasBase (id : Nat) (db : Db) : Prop := ∃ b ∈ db.packageBases, b.id = id

/-- The package that was added is there. -/
def HasPackage (id : Nat) (db : Db) : Prop := ∃ p ∈ db.packages, p.id = id

theorem HasBase.update {id baseID : Nat} {f : PackageBase → PackageBase} (hf : ∀ b, (f b).id = b.id)
    {db : Db} (h : HasBase id db) : HasBase id (db.updatePackageBase baseID f) := by
  obtain ⟨b, hb, hid⟩ := h
  refine ⟨if b.id == baseID then f b else b, Table.mem_update.mpr ⟨b, hb, rfl⟩, ?_⟩
  by_cases hp : b.id == baseID
  · rw [if_pos hp, hf, hid]
  · rw [if_neg hp, hid]

theorem keptBy_hasBase (cfg : Config) (push : Push) (id : Nat) :
    KeptBy cfg push (HasBase id) where
  stores hs h := by cases hs <;> exact h
  clear _ h := h
  notify h := h
  touch _ _ _ h := by
    refine HasBase.update (fun b => ?_) h
    rfl
  takeOver _ _ _ _ h := by
    refine h.update fun b => ?_
    by_cases hm : b.maintainerUID = none <;> simp [hm]
  create _ _ h _ _ _ _ _ := by
    obtain ⟨b, hb, hid⟩ := h
    exact ⟨b, List.mem_append_left _ hb, hid⟩

theorem hasPackage_stores {cfg : Config} {id : Nat} (db db' : Db) (hs : Stores cfg db db') :
    HasPackage id db → HasPackage id db' := by
  intro h
  cases hs with
  | package p _ _ =>
      obtain ⟨q, hq, hid⟩ := h
      exact ⟨q, List.mem_append_left _ hq, hid⟩
  | _ => exact h

/-! ### Up to the first commit -/

/-- An unprivileged push may not use the name. -/
def refusesName (privileged : Bool) (blacklist : List String) (providers : List OfficialProvider)
    (name : String) : Bool :=
  !privileged && (blacklist.contains name || (provider? providers name).isSome)

/--
The hook ends before it has stored anything: a check turns the push away, the pusher is
not found, or the first package of an old base has no version.
-/
def blocked (cfg : Config) (db : Db) (push : Push) : Bool :=
  let baseID := (baseByName cfg push.pkgbase db).map (·.id)
  (!push.privileged && db.packageBlacklist.contains push.pkgbase) ||
  push.packages.any (fun d =>
    refusesName push.privileged db.packageBlacklist db.officialProviders d.name ||
      overwrites cfg db baseID d.name) ||
  (userByName cfg push.user db).isNone ||
  baseID.isSome && push.packages.head?.any (!·.version.isOk)

/--
The tick of the first commit.  Before it come the three queries of the checks and one for
each package; a new base then takes a query and two inserts, an old one two queries, two
updates, six deletes and the insert of the first package.
-/
def firstCommit (cfg : Config) (db : Db) (push : Push) : Nat :=
  if (baseByName cfg push.pkgbase db).isSome then 11 + push.packages.length + 3
  else 3 + push.packages.length + 3

theorem checkPackage_eq {cfg : Config} {privileged : Bool} {blacklist : List String}
    {providers : List OfficialProvider} {baseID : Option Nat} {d : PackageData}
    (h : refusesName privileged blacklist providers d.name = false) :
    checkPackage cfg privileged blacklist providers baseID d =
      query (fun db => overwrites cfg db baseID d.name) >>= fun taken =>
        when taken (raise (.die s!"cannot overwrite package: {d.name}")) := by
  unfold checkPackage checkProvider
  cases privileged with
  | true =>
      have hwarn : ∀ m, warnOrDie true m = pure () := fun _ => rfl
      have hwhen : ∀ b, when b (pure () : Hook Unit) = pure () := by
        intro b
        cases b <;> rfl
      cases provider? providers d.name <;> simp [hwarn, hwhen]
  | false =>
      simp only [refusesName, Bool.not_false, Bool.true_and, Bool.or_eq_false_iff] at h
      obtain ⟨hblack, hprov⟩ := h
      have hnone : provider? providers d.name = none := by simpa using hprov
      rw [hblack, hnone, when_false, Prog.pure_bind, Prog.pure_bind]

theorem refused_checkPackage {β : Type} {cfg : Config} {privileged : Bool}
    {blacklist : List String} {providers : List OfficialProvider} {baseID : Option Nat}
    {d : PackageData} {g : Unit → Hook β} {c : Conn Db}
    (h : refusesName privileged blacklist providers d.name = true ∨
      overwrites cfg c.working baseID d.name = true) :
    Refused (checkPackage cfg privileged blacklist providers baseID d >>= g) c := by
  cases hname : refusesName privileged blacklist providers d.name with
  | false =>
      have hover : overwrites cfg c.working baseID d.name = true := by simpa [hname] using h
      rw [checkPackage_eq hname, bind_assoc]
      refine Refused.query ?_
      rw [hover, when_true]
      exact Refused.raise _ _ _
  | true =>
      simp only [refusesName, Bool.and_eq_true, Bool.not_eq_true', Bool.or_eq_true] at hname
      obtain ⟨rfl, hname⟩ := hname
      unfold checkPackage checkProvider
      cases hblack : blacklist.contains d.name with
      | true =>
          rw [when_true, bind_assoc]
          exact Refused.raise _ _ _
      | false =>
          obtain ⟨repo, hrepo⟩ : ∃ repo, provider? providers d.name = some repo := by
            rw [hblack] at hname
            simpa [Option.isSome_iff_exists] using hname
          rw [hrepo, when_false, Prog.pure_bind, bind_assoc]
          exact Refused.raise _ _ _

theorem refused_checks {β : Type} {cfg : Config} {privileged : Bool} {blacklist : List String}
    {providers : List OfficialProvider} {baseID : Option Nat} {g : Unit → Hook β} :
    ∀ {packages : List PackageData} {c : Conn Db},
      (packages.any fun d => refusesName privileged blacklist providers d.name ||
        overwrites cfg c.working baseID d.name) = true →
      Refused (forEach packages (checkPackage cfg privileged blacklist providers baseID) >>= g) c
  | [], _, h => by simp at h
  | d :: ds, c, h => by
      rw [forEach_cons, bind_assoc]
      cases hd : refusesName privileged blacklist providers d.name ||
          overwrites cfg c.working baseID d.name with
      | true => exact refused_checkPackage (by simpa using hd)
      | false =>
          rw [List.any_cons, hd, Bool.false_or] at h
          obtain ⟨hname, hover⟩ := Bool.or_eq_false_iff.mp hd
          rw [checkPackage_eq hname, bind_assoc]
          refine Refused.query ?_
          rw [hover, when_false, Prog.pure_bind]
          exact refused_checks h

/-- Once every name is admitted, the checks are one query for each package. -/
theorem checks_eq {cfg : Config} {privileged : Bool} {blacklist : List String}
    {providers : List OfficialProvider} {baseID : Option Nat} {packages : List PackageData}
    (h : ∀ d ∈ packages, refusesName privileged blacklist providers d.name = false) :
    forEach packages (checkPackage cfg privileged blacklist providers baseID) =
      forEach packages fun d => query (fun db => overwrites cfg db baseID d.name) >>= fun taken =>
        when taken (raise (.die s!"cannot overwrite package: {d.name}")) :=
  forEach_congr fun d hd => checkPackage_eq (h d hd)

theorem when_warn_eq {b privileged : Bool} {m : String} (h : (!privileged && b) = false) :
    when b (warnOrDie privileged m) = pure () := by
  cases privileged with
  | true => cases b <;> rfl
  | false =>
      rw [show b = false by simpa using h]
      rfl

/-! The rows are deleted by hand before the packages; the cascade then finds none. -/

theorem delete_owned {ρ : Type} (db : Db) (baseID : Nat) (key : ρ → Nat) (t : List ρ) :
    Table.delete (fun r => db.packages.any fun p => p.id == key r && p.packageBaseID == baseID)
        (Table.delete (fun r => ownedBy db baseID (key r)) t) =
      Table.delete (fun r => db.packages.any fun p => p.id == key r && p.packageBaseID == baseID)
        t := by
  have hgone : ∀ id, ownedBy db baseID id =
      db.packages.any fun p => p.id == id && p.packageBaseID == baseID := by
    intro id
    exact congrArg db.packages.any (funext fun p => Bool.and_comm _ _)
  simp only [hgone]
  exact Table.delete_eq_self fun r hr => (Table.mem_delete.mp hr).2

section Cascade

variable (baseID : Nat) (db : Db)

theorem deletePackages_deleteSources :
    (deleteSources baseID db).deletePackages (·.packageBaseID == baseID) =
      db.deletePackages (·.packageBaseID == baseID) := by
  simp only [Db.deletePackages, deleteSources, delete_owned]

theorem deletePackages_deleteDepends :
    (deleteDepends baseID db).deletePackages (·.packageBaseID == baseID) =
      db.deletePackages (·.packageBaseID == baseID) := by
  simp only [Db.deletePackages, deleteDepends, delete_owned]

theorem deletePackages_deleteRelations :
    (deleteRelations baseID db).deletePackages (·.packageBaseID == baseID) =
      db.deletePackages (·.packageBaseID == baseID) := by
  simp only [Db.deletePackages, deleteRelations, delete_owned]

theorem deletePackages_deleteLicenses :
    (deleteLicenses baseID db).deletePackages (·.packageBaseID == baseID) =
      db.deletePackages (·.packageBaseID == baseID) := by
  simp only [Db.deletePackages, deleteLicenses, delete_owned]

theorem deletePackages_deleteGroups :
    (deleteGroups baseID db).deletePackages (·.packageBaseID == baseID) =
      db.deletePackages (·.packageBaseID == baseID) := by
  simp only [Db.deletePackages, deleteGroups, delete_owned]

end Cascade

theorem Refused.clearPackages {β : Type} {baseID : Nat} {g : Unit → Hook β} {c : Conn Db}
    (hg : Refused (g ())
      ⟨c.committed, c.working.deletePackages (·.packageBaseID == baseID), c.ticks + 6⟩) :
    Refused (clearPackages baseID >>= g) c := by
  unfold GitUpdate.clearPackages
  simp only [bind_assoc]
  refine Refused.write (Refused.write (Refused.write ?_))
  refine Refused.write (Refused.write (Refused.write ?_))
  rw [deletePackages_deleteGroups, deletePackages_deleteLicenses, deletePackages_deleteRelations,
    deletePackages_deleteDepends, deletePackages_deleteSources]
  exact hg

theorem FirstCommit.clearPackages {β : Type} {n baseID : Nat} {E : Db → Prop} {g : Unit → Hook β}
    {c : Conn Db}
    (hg : FirstCommit n E (g ())
      ⟨c.committed, c.working.deletePackages (·.packageBaseID == baseID), c.ticks + 6⟩) :
    FirstCommit (n + 6) E (clearPackages baseID >>= g) c := by
  unfold GitUpdate.clearPackages
  simp only [bind_assoc]
  refine FirstCommit.write (FirstCommit.write (FirstCommit.write ?_))
  refine FirstCommit.write (FirstCommit.write (FirstCommit.write ?_))
  rw [deletePackages_deleteGroups, deletePackages_deleteLicenses, deletePackages_deleteRelations,
    deletePackages_deleteDepends, deletePackages_deleteSources]
  exact hg

/-- What is left of `main` after the checks. -/
def afterChecks (cfg : Config) (push : Push) (row : Option PackageBase) : Hook Unit :=
  when row.isNone (createPkgbase cfg push.pkgbase push.user push.now) >>= fun _ =>
    saveMetadata cfg push.pkgbase push.user push.packages push.now >>= fun _ =>
      publish cfg push.user

theorem refused_of_unknown_user {cfg : Config} {db : Db} {push : Push}
    (huser : userByName cfg push.user db = none) (ticks : Nat) :
    Refused (afterChecks cfg push (baseByName cfg push.pkgbase db)) ⟨db, db, ticks⟩ := by
  unfold afterChecks
  cases hrow : baseByName cfg push.pkgbase db with
  | none =>
      show Refused (createPkgbase _ _ _ _ >>= _) _
      unfold createPkgbase
      rw [bind_assoc]
      refine Refused.query ?_
      rw [huser]
      exact Refused.raise _ _ _
  | some base =>
      show Refused (pure () >>= _) _
      rw [Prog.pure_bind]
      unfold saveMetadata
      rw [bind_assoc]
      refine Refused.query ?_
      rw [hrow]
      show Refused ((query _ >>= _) >>= _) _
      rw [bind_assoc]
      refine Refused.query ?_
      rw [huser]
      exact Refused.raise _ _ _

/-- The version of the first package is put together after the deletes. -/
theorem refused_of_unreadable {cfg : Config} {db : Db} {push : Push} {base : PackageBase} {u : User}
    {d : PackageData} {ds : List PackageData} {e : Failure} (hpackages : push.packages = d :: ds)
    (hversion : d.version = .error e) (hrow : baseByName cfg push.pkgbase db = some base)
    (huser : userByName cfg push.user db = some u) (ticks : Nat) :
    Refused (afterChecks cfg push (some base)) ⟨db, db, ticks⟩ := by
  unfold afterChecks
  show Refused (pure () >>= _) _
  rw [Prog.pure_bind]
  unfold saveMetadata
  rw [bind_assoc]
  refine Refused.query ?_
  rw [hrow]
  show Refused ((query _ >>= _) >>= _) _
  rw [bind_assoc]
  refine Refused.query ?_
  rw [huser, hpackages]
  show Refused ((write _ >>= _) >>= _) _
  simp only [bind_assoc, forEach_cons]
  refine Refused.write (Refused.write (Refused.clearPackages ?_))
  unfold storePackage
  rw [hversion, bind_assoc]
  exact Refused.raise _ _ _

theorem refused_afterChecks {cfg : Config} {db : Db} {push : Push}
    (h : (userByName cfg push.user db).isNone = true ∨
      (baseByName cfg push.pkgbase db).isSome = true ∧
        push.packages.head?.any (!·.version.isOk) = true) (ticks : Nat) :
    Refused (afterChecks cfg push (baseByName cfg push.pkgbase db)) ⟨db, db, ticks⟩ := by
  cases huser : userByName cfg push.user db with
  | none => exact refused_of_unknown_user huser ticks
  | some u =>
      obtain ⟨hbase, hhead⟩ : (baseByName cfg push.pkgbase db).isSome = true ∧
          push.packages.head?.any (!·.version.isOk) = true := by simpa [huser] using h
      obtain ⟨base, hrow⟩ := Option.isSome_iff_exists.mp hbase
      cases hpackages : push.packages with
      | nil => simp [hpackages] at hhead
      | cons d ds =>
          cases hversion : d.version with
          | ok v => simp [hpackages, hversion, Except.isOk, Except.toBool] at hhead
          | error e =>
              rw [hrow]
              exact refused_of_unreadable hpackages hversion hrow huser ticks

/-- The checks turn nothing down. -/
structure Passes (cfg : Config) (db : Db) (push : Push) : Prop where
  name : (!push.privileged && db.packageBlacklist.contains push.pkgbase) = false
  packages : ∀ d ∈ push.packages,
    refusesName push.privileged db.packageBlacklist db.officialProviders d.name = false ∧
      overwrites cfg db ((baseByName cfg push.pkgbase db).map (·.id)) d.name = false

/-! The three queries and the checks come first, whichever way the push then goes. -/

theorem Passes.refused {cfg : Config} {db : Db} {push : Push} (h : Passes cfg db push)
    (hrest : ∀ ticks, Refused (afterChecks cfg push (baseByName cfg push.pkgbase db))
      ⟨db, db, ticks⟩) : Refused (main cfg push) ⟨db, db, 0⟩ := by
  unfold main
  refine Refused.query (Refused.query ?_)
  rw [when_warn_eq h.name, Prog.pure_bind]
  refine Refused.query ?_
  rw [checks_eq fun d hd => (h.packages d hd).1]
  refine Refused.forEach_query (fun d hd => ?_) (hrest _)
  rw [(h.packages d hd).2]
  rfl

theorem Passes.firstCommit {cfg : Config} {db : Db} {push : Push} (h : Passes cfg db push)
    {n : Nat} {E : Db → Prop}
    (hrest : ∀ ticks, FirstCommit n E (afterChecks cfg push (baseByName cfg push.pkgbase db))
      ⟨db, db, ticks⟩) :
    FirstCommit (n + push.packages.length + 3) E (main cfg push) ⟨db, db, 0⟩ := by
  unfold main
  refine FirstCommit.query (FirstCommit.query ?_)
  rw [when_warn_eq h.name, Prog.pure_bind]
  refine FirstCommit.query ?_
  rw [checks_eq fun d hd => (h.packages d hd).1]
  refine FirstCommit.forEach_query (fun d hd => ?_) (hrest _)
  rw [(h.packages d hd).2]
  rfl

/-- **A blocked push fails and stores nothing**, whatever else fails. -/
theorem refused_of_blocked {cfg : Config} {db : Db} {push : Push}
    (h : blocked cfg db push = true) : Refused (main cfg push) ⟨db, db, 0⟩ := by
  cases hbase : !push.privileged && db.packageBlacklist.contains push.pkgbase with
  | true =>
      simp only [Bool.and_eq_true, Bool.not_eq_true'] at hbase
      obtain ⟨hpriv, hblack⟩ := hbase
      unfold main
      refine Refused.query (Refused.query ?_)
      rw [hblack, hpriv, when_true]
      exact Refused.raise _ _ _
  | false =>
      simp only [blocked, hbase, Bool.false_or, Bool.or_eq_true] at h
      cases hchecks : push.packages.any fun d =>
          refusesName push.privileged db.packageBlacklist db.officialProviders d.name ||
            overwrites cfg db ((baseByName cfg push.pkgbase db).map (·.id)) d.name with
      | true =>
          unfold main
          refine Refused.query (Refused.query ?_)
          rw [when_warn_eq hbase, Prog.pure_bind]
          exact Refused.query (refused_checks hchecks)
      | false =>
          rw [hchecks] at h
          simp only [List.any_eq_false, Bool.or_eq_true, not_or, Bool.not_eq_true] at hchecks
          have hpasses : Passes cfg db push := ⟨hbase, hchecks⟩
          exact hpasses.refused (refused_afterChecks (by simpa using h))

/-- What a push that is not turned away has: its checks, a user, and a version to start with. -/
theorem of_not_blocked {cfg : Config} {db : Db} {push : Push} (h : blocked cfg db push = false) :
    Passes cfg db push ∧ (∃ u, userByName cfg push.user db = some u) ∧
      ∀ base, baseByName cfg push.pkgbase db = some base →
        ∀ d, push.packages.head? = some d → ∃ version, d.version = .ok version := by
  simp only [blocked, Bool.or_eq_false_iff, List.any_eq_false, Bool.or_eq_true, not_or,
    Bool.not_eq_true] at h
  obtain ⟨⟨⟨hbase, hchecks⟩, huser⟩, hversion⟩ := h
  refine ⟨⟨hbase, hchecks⟩, ?_, fun base hrow d hd => ?_⟩
  · rw [← Option.isSome_iff_exists]
    simpa using huser
  · cases hv : d.version with
    | ok version => exact ⟨version, rfl⟩
    | error e => simp [hrow, hd, hv, Except.isOk, Except.toBool] at hversion

/-- Ids are handed out by the counter, and a notification is of a base that exists. -/
structure Fresh (db : Db) : Prop where
  bases : ∀ b ∈ db.packageBases, b.id < db.nextID
  packages : ∀ p ∈ db.packages, p.id < db.nextID
  notifications : ∀ n ∈ db.packageNotifications, n.packageBaseID < db.nextID

theorem Fresh.not_listed {db : Db} (h : Fresh db) (uid : Nat) :
    hasNotification db db.nextID uid = false := by
  rw [hasNotification, List.any_eq_false]
  intro n hn
  have hlt : n.packageBaseID < db.nextID := h.notifications n hn
  have hne : n.packageBaseID ≠ db.nextID := by omega
  simp [hne]

/-- A new base is committed on its own, before anything else. -/
theorem firstCommit_new {cfg : Config} {db : Db} {push : Push} {u : User}
    (hlisted : hasNotification db db.nextID u.id = false)
    (hrow : baseByName cfg push.pkgbase db = none)
    (huser : userByName cfg push.user db = some u) (ticks : Nat) :
    FirstCommit 3 (HasBase db.nextID) (afterChecks cfg push none) ⟨db, db, ticks⟩ := by
  unfold afterChecks
  show FirstCommit 3 _ (createPkgbase _ _ _ _ >>= _) _
  unfold createPkgbase
  rw [bind_assoc]
  refine FirstCommit.query ?_
  rw [huser]
  show FirstCommit 2 _ ((insertPackageBase _ _ _ _ >>= _) >>= _) _
  unfold insertPackageBase insertNotification insertUnique
  simp only [bind_assoc]
  refine FirstCommit.constrained ?_ (FirstCommit.constrained hlisted ?_)
  · rw [baseByName, List.find?_eq_none] at hrow
    rw [List.any_eq_false]
    exact hrow
  refine FirstCommit.commit ⟨_, List.mem_append_right _ (List.mem_singleton_self _), rfl⟩ ?_
  refine Preserves.bind ?_ fun _ => preserves_publish _ _
  exact (keptBy_hasBase cfg push db.nextID).saveMetadata

/-- Someone is listed for the base to come, and the new row is one too many. -/
theorem refused_of_listed {cfg : Config} {db : Db} {push : Push} {u : User}
    (hlisted : hasNotification db db.nextID u.id = true)
    (hrow : baseByName cfg push.pkgbase db = none)
    (huser : userByName cfg push.user db = some u) (ticks : Nat) :
    Refused (afterChecks cfg push none) ⟨db, db, ticks⟩ := by
  unfold afterChecks
  show Refused (createPkgbase _ _ _ _ >>= _) _
  unfold createPkgbase
  rw [bind_assoc]
  refine Refused.query ?_
  rw [huser]
  show Refused ((insertPackageBase _ _ _ _ >>= _) >>= _) _
  unfold insertPackageBase insertNotification insertUnique
  simp only [bind_assoc]
  refine Refused.constrained ?_ (Refused.violated hlisted)
  rw [baseByName, List.find?_eq_none] at hrow
  rw [List.any_eq_false]
  exact hrow

/-- The packages of an old base are gone with the commit of the first new one. -/
theorem firstCommit_old {cfg : Config} {db : Db} {push : Push} {u : User} {base : PackageBase}
    {d : PackageData} {ds : List PackageData} {version : String}
    (hpackages : push.packages = d :: ds) (hversion : d.version = .ok version)
    (hover : overwrites cfg db (some base.id) d.name = false)
    (hrow : baseByName cfg push.pkgbase db = some base)
    (huser : userByName cfg push.user db = some u) (ticks : Nat) :
    FirstCommit 11 (HasPackage db.nextID) (afterChecks cfg push (some base)) ⟨db, db, ticks⟩ := by
  unfold afterChecks
  show FirstCommit 11 _ (pure () >>= _) _
  rw [Prog.pure_bind]
  unfold saveMetadata
  rw [bind_assoc]
  refine FirstCommit.query ?_
  rw [hrow]
  show FirstCommit 10 _ ((query _ >>= _) >>= _) _
  rw [bind_assoc]
  refine FirstCommit.query ?_
  rw [huser, hpackages]
  show FirstCommit 9 _ ((write _ >>= _) >>= _) _
  simp only [bind_assoc, forEach_cons]
  refine FirstCommit.write (FirstCommit.write (FirstCommit.clearPackages ?_))
  unfold storePackage insertPackage insertUnique
  simp only [bind_assoc, hversion]
  show FirstCommit 1 _ (pure _ >>= _) _
  rw [Prog.pure_bind]
  refine FirstCommit.constrained ?_ ?_
  · rw [List.any_eq_false]
    intro p hp
    obtain ⟨hp, hother⟩ := Table.mem_delete.mp hp
    rw [overwrites, List.any_eq_false] at hover
    have hname := hover p hp
    have hne : p.packageBaseID ≠ base.id := by simpa using hother
    simpa [hne] using hname
  refine FirstCommit.commit ⟨_, List.mem_append_right _ (List.mem_singleton_self _), rfl⟩ ?_
  refine Preserves.bind (preserves_storeFields hasPackage_stores _ _) fun _ => ?_
  refine Preserves.bind (Preserves.forEach fun d _ => ?_) fun _ => ?_
  · exact preserves_storePackage hasPackage_stores _ _
  refine Preserves.bind ?_ fun _ => preserves_publish _ _
  exact preserves_finish (fun _ _ h => h) _ _ _

/-! ### Atomicity -/

/-- The tables a push is stored in. -/
def metadataTables (db : Db) :=
  (db.packageBases, db.packages, db.packageSources, db.packageDepends, db.packageRelations,
    db.packageLicenses, db.packageGroups, db.licenses, db.groups)

/-- What the first commit stores: the new base, or the first package of the old one. -/
def Stored (cfg : Config) (db : Db) (push : Push) : Db → Prop :=
  if (baseByName cfg push.pkgbase db).isSome then HasPackage db.nextID else HasBase db.nextID

theorem metadataTables_ne_of_stored {cfg : Config} {db db' : Db} {push : Push} (hfresh : Fresh db)
    (h : Stored cfg db push db') : metadataTables db' ≠ metadataTables db := by
  intro heq
  have hbases : db'.packageBases = db.packageBases := congrArg (·.1) heq
  have hpackages : db'.packages = db.packages := congrArg (·.2.1) heq
  unfold Stored at h
  split at h
  · obtain ⟨p, hp, hid⟩ := h
    have hlt := hfresh.packages p (hpackages ▸ hp)
    omega
  · obtain ⟨b, hb, hid⟩ := h
    have hlt := hfresh.bases b (hbases ▸ hb)
    omega

/-- Whoever is to be listed for a new base is not listed for it yet. -/
def Unlisted (cfg : Config) (db : Db) (push : Push) : Prop :=
  baseByName cfg push.pkgbase db = none → ∀ u, userByName cfg push.user db = some u →
    hasNotification db db.nextID u.id = false

theorem firstCommit_of_unlisted {cfg : Config} {db : Db} {push : Push}
    (hlisted : Unlisted cfg db push)
    (hpackages : baseByName cfg push.pkgbase db ≠ none → push.packages ≠ [])
    (h : blocked cfg db push = false) :
    FirstCommit (firstCommit cfg db push) (Stored cfg db push) (main cfg push) ⟨db, db, 0⟩ := by
  obtain ⟨hpasses, ⟨u, hu⟩, hversion⟩ := of_not_blocked h
  unfold firstCommit Stored
  cases hrow : baseByName cfg push.pkgbase db with
  | none =>
      refine hpasses.firstCommit (n := 3) fun ticks => ?_
      rw [hrow]
      exact firstCommit_new (hlisted hrow u hu) hrow hu ticks
  | some base =>
      obtain ⟨d, ds, hds⟩ := List.exists_cons_of_ne_nil (hpackages (by simp [hrow]))
      refine hpasses.firstCommit (n := 11) fun ticks => ?_
      rw [hrow]
      have hover : overwrites cfg db (some base.id) d.name = false := by
        simpa [hrow] using (hpasses.packages d (by simp [hds])).2
      obtain ⟨version, hv⟩ := hversion base hrow d (by rw [hds]; rfl)
      exact firstCommit_old hds hv hover hrow hu ticks

theorem firstCommit_of_not_blocked {cfg : Config} {db : Db} {push : Push} (hfresh : Fresh db)
    (hpackages : push.packages ≠ []) (h : blocked cfg db push = false) :
    FirstCommit (firstCommit cfg db push) (Stored cfg db push) (main cfg push) ⟨db, db, 0⟩ :=
  firstCommit_of_unlisted (fun _ u _ => hfresh.not_listed u.id) (fun _ => hpackages) h

/-- A new base that someone is listed for already is not added. -/
theorem refused_of_not_unlisted {cfg : Config} {db : Db} {push : Push}
    (hpasses : Passes cfg db push) (h : ¬Unlisted cfg db push) :
    Refused (main cfg push) ⟨db, db, 0⟩ := by
  simp only [Unlisted, not_forall, Bool.not_eq_false] at h
  obtain ⟨hrow, u, hu, hlisted⟩ := h
  refine hpasses.refused fun ticks => ?_
  rw [hrow]
  exact refused_of_listed hlisted hrow hu ticks

/-- **A push that ends early leaves no trace**: it is turned away, or something fails no later
than its first commit. -/
theorem refused_of_early {cfg : Config} {db : Db} {push : Push}
    (hpackages : baseByName cfg push.pkgbase db ≠ none → push.packages ≠ [])
    {faults : Nat → Option Failure}
    (h : blocked cfg db push = true ∨ ∃ k ≤ firstCommit cfg db push, faults k ≠ none) :
    (∃ e, ((main cfg push).run faults db).1 = .error e) ∧
      ((main cfg push).run faults db).2 = db := by
  rcases h with hblocked | ⟨k, hk, hfault⟩
  · exact refused_of_blocked hblocked faults
  cases hblocked : blocked cfg db push with
  | true => exact refused_of_blocked hblocked faults
  | false =>
      by_cases hlisted : Unlisted cfg db push
      · refine (firstCommit_of_unlisted hlisted hpackages hblocked).early (Nat.zero_le k) ?_ hfault
        simpa using hk
      · exact refused_of_not_unlisted (of_not_blocked hblocked).1 hlisted faults

/-- **A new base is added late.**  A push that is turned away, or fails up to the commit of
the base, leaves no trace. -/
theorem unchanged_of_early {cfg : Config} {db : Db} {push : Push}
    (hrow : baseByName cfg push.pkgbase db = none) {faults : Nat → Option Failure}
    (h : blocked cfg db push = true ∨ ∃ k ≤ firstCommit cfg db push, faults k ≠ none) :
    ((main cfg push).run faults db).2 = db :=
  (refused_of_early (fun hsome => absurd hrow hsome) h).2

/--
**When a failing push is atomic.**  It leaves the tables as they were exactly when it was
turned away before it wrote anything, or failed no later than its first commit.
-/
theorem unchanged_iff {cfg : Config} {db : Db} {push : Push} (hfresh : Fresh db)
    (hpackages : push.packages ≠ []) (faults : Nat → Option Failure) {e : Failure}
    (hfail : ((main cfg push).run faults db).1 = .error e) :
    metadataTables ((main cfg push).run faults db).2 = metadataTables db ↔
      blocked cfg db push = true ∨ ∃ k ≤ firstCommit cfg db push, faults k = some e := by
  cases hb : blocked cfg db push with
  | true =>
      obtain ⟨-, hstored⟩ := refused_of_blocked hb faults
      refine iff_of_true ?_ (Or.inl rfl)
      exact congrArg metadataTables hstored
  | false =>
      rcases firstCommit_of_not_blocked hfresh hpackages hb faults with
        ⟨k, e', -, hk, hfault, hrun, hstored⟩ | ⟨hnone, hE⟩
      · obtain rfl : e' = e := Except.error.inj (hrun.symm.trans hfail)
        refine iff_of_true ?_ (Or.inr ⟨k, by simpa using hk, hfault⟩)
        exact congrArg metadataTables hstored
      · refine iff_of_false (metadataTables_ne_of_stored hfresh hE) ?_
        rintro (hc | ⟨k, hk, hfault⟩)
        · exact Bool.noConfusion hc
        · rw [hnone k (Nat.zero_le k) (by simpa using hk)] at hfault
          exact absurd hfault (by simp)

/-- Names compare letter by letter and every name is a good one. -/
def plainConfig : Config := Config.defaults id fun _ => true

/-- Alice maintains `foo`, which has one package. -/
def fooDb : Db :=
  { users := [{ (default : User) with id := 1, username := "alice" }]
    packageBases := [{ (default : PackageBase) with id := 2, name := "foo", maintainerUID := some 1 }]
    packages := [{ (default : Package) with id := 3, packageBaseID := 2, name := "foo" }]
    nextID := 4 }

/-- A new version of it, with nothing but a license that is listed twice. -/
def twoLicenses : Push :=
  { pkgbase := "foo", user := "alice", privileged := false, now := 5
    packages := [{
      name := "foo", version := .ok "2-1", description := none, url := none
      passes := [{ sources := [], depends := fun _ => [], relations := fun _ => [] }]
      licenses := ["MIT", "MIT"], groups := [] }] }

theorem unchanged_iff_twoLicenses :
    metadataTables ((main plainConfig twoLicenses).run (fun _ => none) fooDb).2 =
        metadataTables fooDb ↔
      blocked plainConfig fooDb twoLicenses = true ∨
        ∃ k ≤ firstCommit plainConfig fooDb twoLicenses,
          (none : Option Failure) = some (.raised "IntegrityError") :=
  unchanged_iff ⟨by decide, by decide, by decide⟩ (by decide) (fun _ => none) (by decide +kernel)

/-- The second row of the license is refused, and the old version is gone. -/
theorem old_version_lost :
    ((main plainConfig twoLicenses).run (fun _ => none) fooDb).1 =
        .error (.raised "IntegrityError") ∧
      metadataTables ((main plainConfig twoLicenses).run (fun _ => none) fooDb).2 ≠
        metadataTables fooDb := by
  refine ⟨by decide +kernel, ?_⟩
  intro heq
  have hversions := congrArg (fun t => t.2.1.map (·.version)) heq
  revert hversions
  decide +kernel

end Aurweb.GitUpdate
