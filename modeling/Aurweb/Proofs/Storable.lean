/-
Which pushes get through.

A push that is not turned away still meets the unique indexes while its packages are stored:
`Packages.Name`, and one row for each license and each group of a package.  `Storable` says
that its own packages leave them alone.  Nothing else can then stop the hook but a tick that
fails, or a row in `PackageNotifications` for a base that is yet to come.
-/
import Aurweb.Proofs.SaveMetadata
import Aurweb.Proofs.WellFormed

namespace Aurweb.GitUpdate

open Txn Txn.Prog

/-- Every version can be put together, and no package, license or group is named twice. -/
structure Storable (cfg : Config) (packages : List PackageData) : Prop where
  versions : ∀ d ∈ packages, d.version.isOk = true
  names : packages.Pairwise fun d e => cfg.sameName d.name e.name = false
  licenses : ∀ d ∈ packages, d.licenses.Pairwise fun a b => cfg.sameName a b = false
  groups : ∀ d ∈ packages, d.groups.Pairwise fun a b => cfg.sameName a b = false

theorem Storable.version {cfg : Config} {packages : List PackageData} (h : Storable cfg packages)
    {d : PackageData} (hd : d ∈ packages) : ∃ version, d.version = .ok version := by
  have hok := h.versions d hd
  cases hv : d.version with
  | ok version => exact ⟨version, rfl⟩
  | error e => simp [hv, Except.isOk, Except.toBool] at hok

theorem licenseOps_euclidean (cfg : Config) : (licenseOps cfg).Euclidean :=
  fun _ _ _ hab hac => Config.sameName_trans (Config.sameName_symm hab) hac

theorem groupOps_euclidean (cfg : Config) : (groupOps cfg).Euclidean :=
  fun _ _ _ hab hac => Config.sameName_trans (Config.sameName_symm hab) hac

/-! ### One package -/

theorem returns_storePass (P : Db → Prop) (pkgID : Nat) (p : Pass) :
    Returns P (storePass pkgID p) := by
  have hdep : ∀ t ∈ depTypes, Returns (fun _ => True)
      (external >>= fun _ => forEach (p.depends t) (insertDependency pkgID t)) := fun t _ =>
    Returns.bind_always Returns.external fun _ => Returns.forEach_always fun _ _ => Returns.write _
  have hrel : ∀ t ∈ relTypes, Returns (fun _ => True)
      (external >>= fun _ => forEach (p.relations t) (insertRelation pkgID t)) := fun t _ =>
    Returns.bind_always Returns.external fun _ => Returns.forEach_always fun _ _ => Returns.write _
  refine Returns.bind_always (Returns.forEach_always fun _ _ => Returns.write _) fun _ => ?_
  refine Returns.bind_always (Returns.forEach_always hdep) fun _ => ?_
  exact Returns.forEach_always hrel

/-- A name that has not been linked to yet can be. -/
theorem returns_storeNamed {ρ : Type} {o : Registry.Ops ρ} (heuclid : o.Euclidean)
    {F : Registry.State ρ → Db} {lookup : Db → Option Nat} {insertName : Hook Nat}
    {insertLink : Nat → Hook Unit} {s r : Registry.State ρ} {names : List String} {name : String}
    (hlookup : lookup (F r) = (r.rows.find? fun row => o.same (o.name row) name).map o.id)
    (hyields : Yields insertName (F r) r.next
      (F { r with rows := r.rows ++ [o.make r.next name], next := r.next + 1 }))
    (hinsert : (r.rows.find? fun row => o.same (o.name row) name) = none →
      Returns (· = F r) insertName)
    (hlink : ∀ rows next i, i ∉ r.links →
      Returns (· = F { rows, links := r.links, next }) (insertLink i))
    (hlinked : Registry.Linked o s r names) (hempty : s.links = [])
    (hnew : ∀ n ∈ names, o.same n name = false) :
    Returns (· = F r) (storeNamed lookup insertName insertLink) := by
  refine Returns.bind_yields (Returns.query _) (Yields.query _ _) ?_
  rw [hlookup]
  cases hfind : r.rows.find? fun row => o.same (o.name row) name with
  | some row =>
      have hrow : row ∈ r.rows := List.mem_of_find?_eq_some hfind
      have hname : o.same (o.name row) name = true := by simpa using List.find?_some hfind
      exact hlink _ _ _ (hlinked.row_fresh heuclid hempty hrow hname hnew)
  | none =>
      refine Returns.bind_yields (hinsert hfind) hyields ?_
      refine Returns.bind_yields Returns.commit (Yields.commit _) ?_
      exact hlink _ _ _ (hlinked.next_fresh hempty)

/-- The primary key lets a link in that is not there. -/
theorem any_link_eq_false {ρ : Type} {key link : ρ → Nat} {row : Nat → ρ} {old : List ρ}
    {ids : List Nat} {pkgID i : Nat} (hold : ∀ r ∈ old, key r ≠ pkgID)
    (hrow : ∀ j, link (row j) = j) (hi : i ∉ ids) :
    ((old ++ ids.map row).any fun r => key r == pkgID && link r == i) = false := by
  rw [List.any_eq_false]
  intro r hr
  rcases List.mem_append.mp hr with hr | hr
  · simp [hold r hr]
  · obtain ⟨j, hj, rfl⟩ := List.mem_map.mp hr
    have hne : j ≠ i := fun heq => hi (heq ▸ hj)
    simp [hrow, hne]

section

variable {cfg : Config} {pkgID : Nat} {s : Db} {names : List String} {name : String}

theorem returns_storeLicense {old : List PackageLicense} (hold : ∀ r ∈ old, r.packageID ≠ pkgID)
    {r₀ r : Registry.State License} (hlinked : Registry.Linked (licenseOps cfg) r₀ r names)
    (hempty : r₀.links = []) (hnew : ∀ n ∈ names, cfg.sameName n name = false) :
    Returns (· = withLicenses s pkgID old r) (storeLicense cfg pkgID name) := by
  refine returns_storeNamed (licenseOps_euclidean cfg) (F := withLicenses s pkgID old) rfl ?_ ?_ ?_
    hlinked hempty hnew
  · unfold insertLicense insertUnique
    exact Yields.constrained _ _ _ _
  · intro hnone
    unfold insertLicense insertUnique
    refine Returns.constrained fun t ht => ?_
    rw [ht, List.any_eq_false]
    exact List.find?_eq_none.mp hnone
  · intro rows next i hi
    unfold insertPackageLicense insertUnique
    refine Returns.constrained fun t ht => ?_
    rw [ht]
    exact any_link_eq_false hold (fun _ => rfl) hi

theorem returns_storeGroup {old : List PackageGroup} (hold : ∀ r ∈ old, r.packageID ≠ pkgID)
    {r₀ r : Registry.State Group} (hlinked : Registry.Linked (groupOps cfg) r₀ r names)
    (hempty : r₀.links = []) (hnew : ∀ n ∈ names, cfg.sameName n name = false) :
    Returns (· = withGroups s pkgID old r) (storeGroup cfg pkgID name) := by
  refine returns_storeNamed (groupOps_euclidean cfg) (F := withGroups s pkgID old) rfl ?_ ?_ ?_
    hlinked hempty hnew
  · unfold insertGroup insertUnique
    exact Yields.constrained _ _ _ _
  · intro hnone
    unfold insertGroup insertUnique
    refine Returns.constrained fun t ht => ?_
    rw [ht, List.any_eq_false]
    exact List.find?_eq_none.mp hnone
  · intro rows next i hi
    unfold insertPackageGroup insertUnique
    refine Returns.constrained fun t ht => ?_
    rw [ht]
    exact any_link_eq_false hold (fun _ => rfl) hi

/-- The loops over the names of a package; the invariant is what linking the names so far has
done. -/
theorem returns_names {ρ : Type} {o : Registry.Ops ρ} {F : Registry.State ρ → Db}
    {body : String → Hook Unit} {r₀ : Registry.State ρ} (hkeyed : Registry.Keyed o r₀)
    (hdistinct : names.Pairwise fun a b => o.same a b = false)
    (hyields : ∀ name r, Yields (body name) (F r) () (F (Registry.link o r name)))
    (hreturns : ∀ done name r, Registry.Linked o r₀ r done →
      (∀ n ∈ done, o.same n name = false) → Returns (· = F r) (body name)) :
    Returns (· = F r₀) (forEach names body) := by
  have hloop : Returns (fun t => t = F (List.foldl (Registry.link o) r₀ []))
      (forEach names body) := by
    refine Returns.forEach (I := fun done t => t = F (done.foldl (Registry.link o) r₀)) [] names
      (fun done name post heq => ?_) fun done name post _ => ?_
    · refine hreturns done name _ (Registry.linked_foldl hkeyed) fun n hn => ?_
      rw [List.nil_append] at heq
      rw [heq] at hdistinct
      exact (List.pairwise_append.mp hdistinct).2.2 n hn name (by simp)
    · refine (hyields name _).imp (fun _ h => h) fun _ c hc => ?_
      rw [hc.2, List.foldl_append]
      rfl
  exact hloop

theorem returns_licenses (hfree : ∀ r ∈ s.packageLicenses, r.packageID ≠ pkgID)
    (hkeyed : Registry.Keyed (licenseOps cfg)
      { rows := s.licenses, links := [], next := s.nextID })
    (hdistinct : names.Pairwise fun a b => cfg.sameName a b = false) :
    Returns (· = s) (forEach names (storeLicense cfg pkgID)) := by
  have hself : s = withLicenses s pkgID s.packageLicenses
      { rows := s.licenses, links := [], next := s.nextID } := by
    simp [withLicenses]
  have hloop := returns_names (F := withLicenses s pkgID s.packageLicenses) hkeyed hdistinct
    (fun name r => yields_storeLicense cfg pkgID name s s.packageLicenses r)
    fun done name r hlinked hnew => returns_storeLicense hfree hlinked rfl hnew
  rwa [← hself] at hloop

theorem returns_groups (hfree : ∀ r ∈ s.packageGroups, r.packageID ≠ pkgID)
    (hkeyed : Registry.Keyed (groupOps cfg) { rows := s.groups, links := [], next := s.nextID })
    (hdistinct : names.Pairwise fun a b => cfg.sameName a b = false) :
    Returns (· = s) (forEach names (storeGroup cfg pkgID)) := by
  have hself : s = withGroups s pkgID s.packageGroups
      { rows := s.groups, links := [], next := s.nextID } := by
    simp [withGroups]
  have hloop := returns_names (F := withGroups s pkgID s.packageGroups) hkeyed hdistinct
    (fun name r => yields_storeGroup cfg pkgID name s s.packageGroups r)
    fun done name r hlinked hnew => returns_storeGroup hfree hlinked rfl hnew
  rwa [← hself] at hloop

end

section

variable {cfg : Config} {s : Db} {d : PackageData}

theorem returns_storeFields {pkgID : Nat} (hs : Keyed s)
    (hlicense : ∀ r ∈ s.packageLicenses, r.packageID ≠ pkgID)
    (hgroup : ∀ r ∈ s.packageGroups, r.packageID ≠ pkgID)
    (hlicenses : d.licenses.Pairwise fun a b => cfg.sameName a b = false)
    (hgroups : d.groups.Pairwise fun a b => cfg.sameName a b = false) :
    Returns (· = s) (storeFields cfg d pkgID) := by
  have hkeyed : Registry.Keyed (licenseOps cfg)
      { rows := s.licenses, links := [], next := s.nextID } := ⟨hs.licensesNodup, hs.licenses⟩
  have hlinked : Registry.Linked (licenseOps cfg) _ (linkLicenses cfg s d.licenses) d.licenses :=
    Registry.linked_foldl hkeyed
  refine Returns.bind_yields (Returns.forEach_always fun p _ => returns_storePass _ pkgID p)
    (yields_passes d pkgID s) ?_
  refine Returns.bind_yields (returns_licenses hlicense hkeyed hlicenses)
    (yields_licenses cfg pkgID d.licenses _) ?_
  refine returns_groups hgroup ⟨hs.groupsNodup, fun g hg => ?_⟩ hgroups
  have hlt : g.id < s.nextID := hs.groups g hg
  exact Nat.lt_of_lt_of_le hlt hlinked.next_le

theorem Keyed.appendPackage (hs : Keyed s) {p : Package} (hid : p.id = s.nextID) :
    Keyed { s with packages := s.packages ++ [p], nextID := s.nextID + 1 } := by
  have hpackages : ∀ q ∈ s.packages ++ [p], q.id < s.nextID + 1 := by
    intro q hq
    rcases List.mem_append.mp hq with hq | hq
    · exact hs.succ.packages q hq
    · obtain rfl := List.mem_singleton.mp hq
      omega
  exact { hs.succ with packages := hpackages }

theorem returns_storePackage {version : String} (hs : Keyed s) (baseID : Nat)
    (hversion : d.version = .ok version)
    (hname : ∀ p ∈ s.packages, cfg.sameName p.name d.name = false)
    (hlicenses : d.licenses.Pairwise fun a b => cfg.sameName a b = false)
    (hgroups : d.groups.Pairwise fun a b => cfg.sameName a b = false) :
    Returns (· = s) (storePackage cfg baseID d) := by
  have hinsert : Returns (· = s) (insertPackage cfg baseID d version) := by
    unfold insertPackage insertUnique
    refine Returns.constrained fun t ht => ?_
    rw [ht, List.any_eq_false]
    intro p hp
    simp [hname p hp]
  unfold storePackage
  rw [hversion]
  show Returns _ (pure version >>= _)
  rw [Prog.pure_bind]
  refine Returns.bind_yields hinsert (yields_insertPackage cfg baseID d version s) ?_
  refine Returns.bind_yields Returns.commit (Yields.commit _) ?_
  refine returns_storeFields (hs.appendPackage rfl) (fun r hr => ?_) (fun r hr => ?_)
    hlicenses hgroups
  · exact Nat.ne_of_lt (hs.packageLicenses r hr).1
  · exact Nat.ne_of_lt (hs.packageGroups r hr).1

/-! ### The packages -/

/-- The packages stored so far are named like the ones that were pushed. -/
theorem Saved.names {baseID : Nat} {s' : Db} {done : List PackageData}
    (h : Saved cfg baseID s done s') {p : Package} (hp : p ∈ s'.packages) :
    p ∈ s.packages ∨ ∃ e ∈ done, p.name = e.name := by
  obtain ⟨news, hnews, -, hall⟩ := h.packages
  rw [hnews] at hp
  rcases List.mem_append.mp hp with hp | hp
  · exact Or.inl hp
  · obtain ⟨e, he, hholds⟩ := Table.exists_of_forall₂_left hall (List.mem_map_of_mem hp)
    exact Or.inr ⟨e, he, hholds.name⟩

theorem returns_packages {packages : List PackageData} (hs : Keyed s) (baseID : Nat)
    (hstorable : Storable cfg packages)
    (hfree : ∀ p ∈ s.packages, ∀ d ∈ packages, cfg.sameName p.name d.name = false) :
    Returns (· = s) (forEach packages (storePackage cfg baseID)) := by
  have hloop : Returns (fun t => Saved cfg baseID s [] t)
      (forEach packages (storePackage cfg baseID)) := by
    refine Returns.forEach (I := fun done t => Saved cfg baseID s done t) [] packages
      (fun done d post heq => ?_) fun done d _ _ => ?_
    · rw [List.nil_append] at heq
      have hd : d ∈ packages := by simp [heq]
      obtain ⟨version, hversion⟩ := hstorable.version hd
      refine Returns.intro fun t ht => ?_
      refine returns_storePackage ht.keyed baseID hversion (fun p hp => ?_)
        (hstorable.licenses d hd) (hstorable.groups d hd)
      rcases ht.names hp with hp | ⟨e, he, hname⟩
      · exact hfree p hp d hd
      · have hnames := hstorable.names
        rw [heq] at hnames
        rw [hname]
        exact (List.pairwise_append.mp hnames).2.2 e he d (by simp)
    · exact Saved.stored d
  exact hloop.imp fun t ht => ht ▸ Saved.start hs cfg baseID

/-! ### The rest of the hook -/

theorem returns_finish (P : Db → Prop) (baseID uid : Nat) (wasOrphan : Bool) :
    Returns P (finish baseID uid wasOrphan) := by
  refine Returns.bind_always (Returns.when fun _ => Returns.intro fun t _ => ?_) fun _ =>
    Returns.commit
  refine Returns.bind_yields (Returns.query _) (Yields.query _ t) (Returns.when fun hlisted => ?_)
  unfold insertNotification insertUnique
  refine Returns.constrained fun t' ht => ?_
  rw [ht]
  simpa using hlisted

theorem returns_clearPackages (P : Db → Prop) (baseID : Nat) : Returns P (clearPackages baseID) := by
  refine Returns.bind_always (Returns.write _) fun _ => ?_
  refine Returns.bind_always (Returns.write _) fun _ => ?_
  refine Returns.bind_always (Returns.write _) fun _ => ?_
  refine Returns.bind_always (Returns.write _) fun _ => ?_
  exact Returns.bind_always (Returns.write _) fun _ => Returns.write _

theorem returns_saveMetadata {pkgbase user : String} {packages : List PackageData} {now : Nat}
    {base : PackageBase} {u : User} (hs : Keyed s)
    (hbase : baseByName cfg pkgbase s = some base) (huser : userByName cfg user s = some u)
    (hstorable : Storable cfg packages)
    (hover : ∀ d ∈ packages, overwrites cfg s (some base.id) d.name = false) :
    Returns (· = s) (saveMetadata cfg pkgbase user packages now) := by
  unfold saveMetadata
  refine Returns.bind_yields (Returns.query _) (Yields.query _ s) ?_
  rw [hbase]
  refine Returns.bind_yields (Returns.query _) (Yields.query _ s) ?_
  rw [huser]
  refine Returns.bind_yields (Returns.write _) (Yields.write _ s) ?_
  refine Returns.bind_yields (Returns.write _) (Yields.write _ _) ?_
  refine Returns.bind_yields (returns_clearPackages _ base.id)
    (yields_clearPackages base.id _) ?_
  refine Returns.bind_always ?_ fun _ => returns_finish _ _ _ _
  refine returns_packages (keyed_cleared base.id u.id now hs) base.id hstorable ?_
  intro p hp d hd
  obtain ⟨hp, hother⟩ := Table.mem_delete.mp hp
  have hname := List.any_eq_false.mp (hover d hd) p hp
  have hne : p.packageBaseID ≠ base.id := by simpa using hother
  simpa [hne] using hname

theorem returns_publish {user : String} {u : User} (huser : userByName cfg user s = some u) :
    Returns (fun t => t.users = s.users) (publish cfg user) := by
  refine Returns.intro fun t ht => ?_
  have hfound : userByName cfg user t = some u := by
    rw [userByName, ht]
    exact huser
  unfold publish updateNotify
  refine Returns.bind_yields Returns.external (Yields.external t) ?_
  refine Returns.bind_yields Returns.external (Yields.external t) ?_
  refine Returns.bind_yields (Returns.query _) (Yields.query _ t) ?_
  rw [hfound]
  exact Returns.external

/-- What comes after the checks when the base is there. -/
theorem returns_save {pkgbase user : String} {packages : List PackageData} {now : Nat}
    {base : PackageBase} {u : User} (hs : Keyed s)
    (hbase : baseByName cfg pkgbase s = some base) (huser : userByName cfg user s = some u)
    (hstorable : Storable cfg packages)
    (hover : ∀ d ∈ packages, overwrites cfg s (some base.id) d.name = false) :
    Returns (· = s) (saveMetadata cfg pkgbase user packages now >>= fun _ => publish cfg user) := by
  refine Returns.bind (R := fun _ t => t.users = s.users)
    (returns_saveMetadata hs hbase huser hstorable hover)
    ((saveMetadata_spec hs cfg pkgbase user packages now).imp (fun _ h => h) fun _ c hc => ?_)
    fun _ => returns_publish huser
  obtain ⟨hcommitted, _, -, hpushed⟩ := hc
  have husers := congrArg Db.users hpushed.rest
  rw [← hcommitted]
  exact husers

theorem returns_createPkgbase {pkgbase user : String} {u : User} (now : Nat)
    (hbase : baseByName cfg pkgbase s = none) (huser : userByName cfg user s = some u)
    (hlisted : hasNotification s s.nextID u.id = false) :
    Returns (· = s) (createPkgbase cfg pkgbase user now) := by
  unfold createPkgbase
  refine Returns.bind_yields (Returns.query _) (Yields.query _ s) ?_
  rw [huser]
  unfold insertPackageBase insertNotification insertUnique
  refine Returns.bind_yields (Returns.constrained fun t ht => ?_) (Yields.constrained _ _ _ s) ?_
  · rw [ht, List.any_eq_false]
    exact List.find?_eq_none.mp hbase
  refine Returns.bind_always (Returns.constrained fun t ht => ?_) fun _ => Returns.commit
  rw [ht]
  exact hlisted

end

section

variable {cfg : Config} {push : Push} {db : Db}

theorem returns_afterChecks (hk : Keyed db) (hpasses : Passes cfg db push) {u : User}
    (huser : userByName cfg push.user db = some u) (hstorable : Storable cfg push.packages)
    (hlisted : Unlisted cfg db push) :
    Returns (· = db) (afterChecks cfg push (baseByName cfg push.pkgbase db)) := by
  unfold afterChecks
  cases hbase : baseByName cfg push.pkgbase db with
  | some base =>
      show Returns _ (pure () >>= _)
      rw [Prog.pure_bind]
      refine returns_save hk hbase huser hstorable fun d hd => ?_
      simpa [hbase] using (hpasses.packages d hd).2
  | none =>
      have hcreate := returns_createPkgbase push.now hbase huser (hlisted hbase u huser)
      refine Returns.bind_yields hcreate (yields_createPkgbase huser push.now) ?_
      -- The base that has just been added is the one that is found.
      obtain ⟨base, hfound⟩ : ∃ base,
          baseByName cfg push.pkgbase (created push.pkgbase u.id push.now db) = some base := by
        rw [← Option.isSome_iff_exists, baseByName, List.find?_isSome]
        exact ⟨_, List.mem_append_right _ (List.mem_singleton_self _), cfg.sameName_refl _⟩
      refine returns_save (keyed_created hk _ _ _) hfound huser hstorable fun d hd => ?_
      have hover := (hpasses.packages d hd).2
      rw [hbase, overwrites, List.any_eq_false] at hover
      rw [overwrites, List.any_eq_false]
      intro p hp
      have hname := hover p hp
      simp only [Option.map_none, bne, Bool.and_eq_true, not_and] at hname ⊢
      intro hsame
      exact absurd rfl (hname hsame)

theorem returns_main (hk : Keyed db) (hblocked : blocked cfg db push = false)
    (hstorable : Storable cfg push.packages) (hlisted : Unlisted cfg db push) :
    Returns (· = db) (main cfg push) := by
  obtain ⟨hpasses, ⟨u, huser⟩, -⟩ := of_not_blocked hblocked
  unfold main
  refine Returns.bind_yields (Returns.query _) (Yields.query _ db) ?_
  refine Returns.bind_yields (Returns.query _) (Yields.query _ db) ?_
  rw [when_warn_eq hpasses.name, Prog.pure_bind]
  refine Returns.bind_yields (Returns.query _) (Yields.query _ db) ?_
  refine Returns.bind (R := fun _ t => t = db) ?_ (checks_spec _ _ _ _ _ _ db) fun _ =>
    returns_afterChecks hk hpasses huser hstorable hlisted
  rw [checks_eq fun d hd => (hpasses.packages d hd).1]
  refine Returns.forEach_query fun d hd => ?_
  rw [(hpasses.packages d hd).2]
  rfl

/-- **A storable push gets through**, if nothing fails: what it was for is stored, unless a row
that is too early keeps the new base from being added, and with it everything else. -/
theorem run_of_storable (hk : Keyed db) (hblocked : blocked cfg db push = false)
    (hstorable : Storable cfg push.packages) {faults : Nat → Option Failure}
    (hnone : ∀ k, faults k = none) :
    (((main cfg push).run faults db).1 = .ok () ∧
      ∃ baseID, Pushed cfg push.pkgbase baseID push.packages db
        ((main cfg push).run faults db).2) ∨
    ((∃ e, ((main cfg push).run faults db).1 = .error e) ∧
      ((main cfg push).run faults db).2 = db) := by
  by_cases hlisted : Unlisted cfg db push
  · left
    obtain ⟨u, hok⟩ := (returns_main hk hblocked hstorable hlisted).run hnone
    have hspec : Triple (· = ⟨db, db, 0⟩) (main cfg push) fun _ c =>
        ∃ baseID, Pushed cfg push.pkgbase baseID push.packages db c.committed :=
      (main_spec hk).imp (fun c hc => by rw [hc]) fun _ _ h => h
    obtain ⟨c, hpushed, hcommitted⟩ := hspec.run hok
    rw [hcommitted]
    exact ⟨hok, hpushed⟩
  · right
    exact refused_of_not_unlisted (of_not_blocked hblocked).1 hlisted faults

end

end Aurweb.GitUpdate
