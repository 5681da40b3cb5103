/-
What a push that gets through stores.

`saveMetadata` clears the packages of the base and stores the new ones one after another,
sharing the rows of licenses and groups with every other base.  `Saved` is the invariant
of that loop: the packages stored so far read back as they were pushed, and no row of
another base has changed.  Reading back is `readPackage`, which joins the tables the way
the package page does.
-/
import Aurweb.Lib.Registry
import Aurweb.Proofs.GitUpdate

namespace Aurweb.GitUpdate

open Txn Txn.Prog

/-! ### Reading back -/

structure PackageRows where
  name : String
  version : String
  description : Option String
  url : Option String
  sources : List Source
  depends : List (DependencyType × Dependency)
  relations : List (RelationType × Relation)
  licenses : List String
  groups : List String
  deriving DecidableEq, Repr

def sourcesOf (db : Db) (id : Nat) : List Source :=
  (db.packageSources.filter (·.packageID == id)).map fun r =>
    { source := r.source, arch := r.sourceArch }

def dependsOf (db : Db) (id : Nat) : List (DependencyType × Dependency) :=
  (db.packageDepends.filter (·.packageID == id)).map fun r =>
    (r.depType, { name := r.depName, desc := r.depDesc, cond := r.depCondition, arch := r.depArch })

def relationsOf (db : Db) (id : Nat) : List (RelationType × Relation) :=
  (db.packageRelations.filter (·.packageID == id)).map fun r =>
    (r.relType, { name := r.relName, cond := r.relCondition, arch := r.relArch })

def licensesOf (db : Db) (id : Nat) : List String :=
  (db.packageLicenses.filter (·.packageID == id)).filterMap fun r =>
    (db.licenses.find? (·.id == r.licenseID)).map (·.name)

def groupsOf (db : Db) (id : Nat) : List String :=
  (db.packageGroups.filter (·.packageID == id)).filterMap fun r =>
    (db.groups.find? (·.id == r.groupID)).map (·.name)

def readPackage (db : Db) (p : Package) : PackageRows where
  name := p.name
  version := p.version
  description := p.description
  url := p.url
  sources := sourcesOf db p.id
  depends := dependsOf db p.id
  relations := relationsOf db p.id
  licenses := licensesOf db p.id
  groups := groupsOf db p.id

def PackageData.sources (d : PackageData) : List Source := d.passes.flatMap (·.sources)

def Pass.allDepends (p : Pass) : List (DependencyType × Dependency) :=
  depTypes.flatMap fun t => (p.depends t).map fun dep => (t, dep)

def Pass.allRelations (p : Pass) : List (RelationType × Relation) :=
  relTypes.flatMap fun t => (p.relations t).map fun rel => (t, rel)

def PackageData.depends (d : PackageData) : List (DependencyType × Dependency) :=
  d.passes.flatMap (·.allDepends)

def PackageData.relations (d : PackageData) : List (RelationType × Relation) :=
  d.passes.flatMap (·.allRelations)

/-- The rows are those of the pushed package; shared names are equal to the database. -/
structure Holds (cfg : Config) (rows : PackageRows) (d : PackageData) : Prop where
  name : rows.name = d.name
  version : d.version = .ok rows.version
  description : rows.description = d.description
  url : rows.url = d.url
  sources : rows.sources = d.sources
  depends : rows.depends = d.depends
  relations : rows.relations = d.relations
  licenses : List.Forall₂ (fun stored name => cfg.sameName stored name = true)
    rows.licenses d.licenses
  groups : List.Forall₂ (fun stored name => cfg.sameName stored name = true) rows.groups d.groups

/-! ### One package -/

def sourceRow (pkgID : Nat) (s : Source) : PackageSource :=
  { packageID := pkgID, source := s.source, sourceArch := s.arch }

def dependencyRow (pkgID : Nat) (d : DependencyType × Dependency) : PackageDependency :=
  { packageID := pkgID, depType := d.1, depName := d.2.name, depDesc := d.2.desc
    depCondition := d.2.cond, depArch := d.2.arch }

def relationRow (pkgID : Nat) (r : RelationType × Relation) : PackageRelation :=
  { packageID := pkgID, relType := r.1, relName := r.2.name, relCondition := r.2.cond
    relArch := r.2.arch }

def licenseOps (cfg : Config) : Registry.Ops License where
  make := License.mk
  id := (·.id)
  name := (·.name)
  same := cfg.sameName
  id_make _ _ := rfl
  name_make _ _ := rfl
  same_refl _ := by simp [Config.sameName]

def groupOps (cfg : Config) : Registry.Ops Group where
  make := Group.mk
  id := (·.id)
  name := (·.name)
  same := cfg.sameName
  id_make _ _ := rfl
  name_make _ _ := rfl
  same_refl _ := by simp [Config.sameName]

/-- The three tables a pass appends to. -/
def withRows (s : Db) (rows : List PackageSource × List PackageDependency × List PackageRelation) :
    Db :=
  { s with packageSources := rows.1, packageDepends := rows.2.1, packageRelations := rows.2.2 }

theorem yields_storePass (pkgID : Nat) (p : Pass) (s : Db)
    (rows : List PackageSource × List PackageDependency × List PackageRelation) :
    Yields (storePass pkgID p) (withRows s rows) ()
      (withRows s (rows.1 ++ p.sources.map (sourceRow pkgID),
        rows.2.1 ++ p.allDepends.map (dependencyRow pkgID),
        rows.2.2 ++ p.allRelations.map (relationRow pkgID))) := by
  obtain ⟨src, dep, rel⟩ := rows
  have hsrc : Yields (forEach p.sources (insertSource pkgID)) (withRows s (src, dep, rel)) ()
      (withRows s (src ++ p.sources.map (sourceRow pkgID), dep, rel)) := by
    rw [List.map_eq_flatMap]
    exact Yields.forEach_append (F := fun t => withRows s (t, dep, rel))
      (fun x _ t => Yields.write _ _) src
  have hdep : ∀ src, Yields (forEach depTypes fun t => external >>= fun _ =>
        forEach (p.depends t) (insertDependency pkgID t)) (withRows s (src, dep, rel)) ()
      (withRows s (src, dep ++ p.allDepends.map (dependencyRow pkgID), rel)) := by
    intro src
    rw [Pass.allDepends, List.map_flatMap]
    refine Yields.forEach_append (F := fun t => withRows s (src, t, rel)) (fun t _ rows => ?_) dep
    refine Yields.bind (Yields.external _) ?_
    rw [List.map_map, List.map_eq_flatMap]
    exact Yields.forEach_append (F := fun t => withRows s (src, t, rel))
      (fun d _ rows => Yields.write _ _) rows
  have hrel : ∀ src dep, Yields (forEach relTypes fun t => external >>= fun _ =>
        forEach (p.relations t) (insertRelation pkgID t)) (withRows s (src, dep, rel)) ()
      (withRows s (src, dep, rel ++ p.allRelations.map (relationRow pkgID))) := by
    intro src dep
    rw [Pass.allRelations, List.map_flatMap]
    refine Yields.forEach_append (F := fun t => withRows s (src, dep, t)) (fun t _ rows => ?_) rel
    refine Yields.bind (Yields.external _) ?_
    rw [List.map_map, List.map_eq_flatMap]
    exact Yields.forEach_append (F := fun t => withRows s (src, dep, t))
      (fun r _ rows => Yields.write _ _) rows
  exact Yields.bind hsrc (Yields.bind (hdep _) (hrel _ _))

/-- The rows of all passes are those of each, one after another. -/
theorem foldl_passes (pkgID : Nat) (passes : List Pass)
    (rows : List PackageSource × List PackageDependency × List PackageRelation) :
    passes.foldl (fun rows p => (rows.1 ++ p.sources.map (sourceRow pkgID),
        rows.2.1 ++ p.allDepends.map (dependencyRow pkgID),
        rows.2.2 ++ p.allRelations.map (relationRow pkgID))) rows =
      (rows.1 ++ (passes.flatMap (·.sources)).map (sourceRow pkgID),
        rows.2.1 ++ (passes.flatMap (·.allDepends)).map (dependencyRow pkgID),
        rows.2.2 ++ (passes.flatMap (·.allRelations)).map (relationRow pkgID)) := by
  induction passes generalizing rows with
  | nil => simp
  | cons p passes ih =>
      rw [List.foldl_cons, ih]
      simp only [List.flatMap_cons, List.map_append, List.append_assoc]

/-- Looking a name up, adding it and linking to it is `Registry.link`. -/
theorem yields_storeNamed {ρ : Type} {o : Registry.Ops ρ} {name : String}
    {F : Registry.State ρ → Db} {lookup : Db → Option Nat} {insertName : Hook Nat}
    {insertLink : Nat → Hook Unit}
    (hlookup : ∀ r, lookup (F r) = (r.rows.find? fun row => o.same (o.name row) name).map o.id)
    (hname : ∀ r, Yields insertName (F r) r.next
      (F { r with rows := r.rows ++ [o.make r.next name], next := r.next + 1 }))
    (hlink : ∀ r i, Yields (insertLink i) (F r) () (F { r with links := r.links ++ [i] }))
    (r : Registry.State ρ) :
    Yields (storeNamed lookup insertName insertLink) (F r) () (F (Registry.link o r name)) := by
  refine Yields.bind (Yields.query _ _) ?_
  rw [hlookup]
  cases hfind : r.rows.find? fun row => o.same (o.name row) name with
  | some row =>
      rw [Registry.link_of_some hfind]
      exact hlink r _
  | none =>
      rw [Registry.link_of_none hfind]
      exact Yields.bind (hname r) (Yields.bind (Yields.commit _) (hlink _ _))

/-- The tables of licenses, seen from one package: `old` are the rows of the others. -/
def withLicenses (s : Db) (pkgID : Nat) (old : List PackageLicense)
    (r : Registry.State License) : Db :=
  { s with
    licenses := r.rows
    packageLicenses := old ++ r.links.map fun i => { packageID := pkgID, licenseID := i }
    nextID := r.next }

theorem yields_storeLicense (cfg : Config) (pkgID : Nat) (name : String) (s : Db)
    (old : List PackageLicense) (r : Registry.State License) :
    Yields (storeLicense cfg pkgID name) (withLicenses s pkgID old r) ()
      (withLicenses s pkgID old (Registry.link (licenseOps cfg) r name)) := by
  refine yields_storeNamed (F := withLicenses s pkgID old) (fun r => rfl) (fun r => ?_)
    (fun r i => ?_) r
  · unfold insertLicense insertUnique
    exact Yields.constrained _ _ _ _
  · unfold insertPackageLicense insertUnique
    simp only [withLicenses, List.map_append, List.map_singleton, ← List.append_assoc]
    exact Yields.constrained _ _ _ _

/-- The same for groups. -/
def withGroups (s : Db) (pkgID : Nat) (old : List PackageGroup) (r : Registry.State Group) : Db :=
  { s with
    groups := r.rows
    packageGroups := old ++ r.links.map fun i => { packageID := pkgID, groupID := i }
    nextID := r.next }

theorem yields_storeGroup (cfg : Config) (pkgID : Nat) (name : String) (s : Db)
    (old : List PackageGroup) (r : Registry.State Group) :
    Yields (storeGroup cfg pkgID name) (withGroups s pkgID old r) ()
      (withGroups s pkgID old (Registry.link (groupOps cfg) r name)) := by
  refine yields_storeNamed (F := withGroups s pkgID old) (fun r => rfl) (fun r => ?_)
    (fun r i => ?_) r
  · unfold insertGroup insertUnique
    exact Yields.constrained _ _ _ _
  · unfold insertPackageGroup insertUnique
    simp only [withGroups, List.map_append, List.map_singleton, ← List.append_assoc]
    exact Yields.constrained _ _ _ _

/-- The licenses of a package, linked one after another. -/
def linkLicenses (cfg : Config) (s : Db) (names : List String) : Registry.State License :=
  names.foldl (Registry.link (licenseOps cfg))
    { rows := s.licenses, links := [], next := s.nextID }

def linkGroups (cfg : Config) (s : Db) (names : List String) : Registry.State Group :=
  names.foldl (Registry.link (groupOps cfg))
    { rows := s.groups, links := [], next := s.nextID }

theorem yields_licenses (cfg : Config) (pkgID : Nat) (names : List String) (s : Db) :
    Yields (forEach names (storeLicense cfg pkgID)) s ()
      (withLicenses s pkgID s.packageLicenses (linkLicenses cfg s names)) := by
  have hself : s = withLicenses s pkgID s.packageLicenses
      { rows := s.licenses, links := [], next := s.nextID } := by
    simp [withLicenses]
  have hloop := Yields.forEach (F := withLicenses s pkgID s.packageLicenses)
    (fun name (_ : name ∈ names) r => yields_storeLicense cfg pkgID name s s.packageLicenses r)
    { rows := s.licenses, links := [], next := s.nextID }
  rwa [← hself] at hloop

theorem yields_groups (cfg : Config) (pkgID : Nat) (names : List String) (s : Db) :
    Yields (forEach names (storeGroup cfg pkgID)) s ()
      (withGroups s pkgID s.packageGroups (linkGroups cfg s names)) := by
  have hself : s = withGroups s pkgID s.packageGroups
      { rows := s.groups, links := [], next := s.nextID } := by
    simp [withGroups]
  have hloop := Yields.forEach (F := withGroups s pkgID s.packageGroups)
    (fun name (_ : name ∈ names) r => yields_storeGroup cfg pkgID name s s.packageGroups r)
    { rows := s.groups, links := [], next := s.nextID }
  rwa [← hself] at hloop

/-- The three tables of a package's passes. -/
def withPasses (d : PackageData) (pkgID : Nat) (s : Db) : Db :=
  withRows s
    (s.packageSources ++ d.sources.map (sourceRow pkgID),
      s.packageDepends ++ d.depends.map (dependencyRow pkgID),
      s.packageRelations ++ d.relations.map (relationRow pkgID))

/-- The database once the fields of a package have been stored. -/
def withFields (cfg : Config) (d : PackageData) (pkgID : Nat) (s : Db) : Db :=
  let s₁ := withPasses d pkgID s
  let s₂ := withLicenses s₁ pkgID s₁.packageLicenses (linkLicenses cfg s₁ d.licenses)
  withGroups s₂ pkgID s₂.packageGroups (linkGroups cfg s₂ d.groups)

theorem yields_passes (d : PackageData) (pkgID : Nat) (s : Db) :
    Yields (forEach d.passes (storePass pkgID)) s () (withPasses d pkgID s) := by
  have hpasses := Yields.forEach (F := withRows s)
    (fun p (_ : p ∈ d.passes) rows => yields_storePass pkgID p s rows)
    (s.packageSources, s.packageDepends, s.packageRelations)
  rw [foldl_passes] at hpasses
  exact hpasses

theorem yields_storeFields (cfg : Config) (d : PackageData) (pkgID : Nat) (s : Db) :
    Yields (storeFields cfg d pkgID) s () (withFields cfg d pkgID s) := by
  refine Yields.bind (yields_passes d pkgID s) ?_
  exact Yields.bind (yields_licenses cfg pkgID d.licenses _) (yields_groups cfg pkgID d.groups _)

/-- The row of the package itself. -/
def packageRow (baseID : Nat) (d : PackageData) (version : String) (id : Nat) : Package :=
  { id, packageBaseID := baseID, name := d.name, version, description := d.description, url := d.url }

/-- The database once a package has been stored. -/
def withPackage (cfg : Config) (baseID : Nat) (d : PackageData) (version : String) (s : Db) : Db :=
  withFields cfg d s.nextID
    { s with
      packages := s.packages ++ [packageRow baseID d version s.nextID], nextID := s.nextID + 1 }

theorem yields_insertPackage (cfg : Config) (baseID : Nat) (d : PackageData) (version : String)
    (s : Db) :
    Yields (insertPackage cfg baseID d version) s s.nextID
      { s with
        packages := s.packages ++ [packageRow baseID d version s.nextID]
        nextID := s.nextID + 1 } := by
  unfold insertPackage insertUnique
  exact Yields.constrained _ _ _ _

theorem storePackage_spec (cfg : Config) (baseID : Nat) (d : PackageData) (s : Db) :
    Triple (fun c => c.working = s) (storePackage cfg baseID d) fun _ c =>
      ∃ version, d.version = .ok version ∧ c.working = withPackage cfg baseID d version s := by
  refine Triple.bind (R := fun version c => d.version = .ok version ∧ c.working = s) ?_ ?_
  · exact Triple.ofExcept fun c version hc hv => ⟨hv, hc⟩
  intro version
  have hstore : Yields (insertPackage cfg baseID d version >>= fun pkgID => commit >>= fun _ =>
      storeFields cfg d pkgID) s () (withPackage cfg baseID d version s) :=
    Yields.bind (yields_insertPackage cfg baseID d version s)
      (Yields.bind (Yields.commit _) (yields_storeFields cfg d s.nextID _))
  intro faults c hc u c' heq
  exact ⟨version, hc.1, (hstore faults c hc.2 u c' heq).2⟩

/-! ### Reading back one package -/

/-- Ids are unique and below the counter, and rows only point to ids that exist. -/
structure Keyed (db : Db) : Prop where
  packages : ∀ p ∈ db.packages, p.id < db.nextID
  sources : ∀ r ∈ db.packageSources, r.packageID < db.nextID
  depends : ∀ r ∈ db.packageDepends, r.packageID < db.nextID
  relations : ∀ r ∈ db.packageRelations, r.packageID < db.nextID
  packageLicenses : ∀ r ∈ db.packageLicenses, r.packageID < db.nextID ∧ r.licenseID < db.nextID
  packageGroups : ∀ r ∈ db.packageGroups, r.packageID < db.nextID ∧ r.groupID < db.nextID
  licensesNodup : (db.licenses.map (·.id)).Nodup
  licenses : ∀ l ∈ db.licenses, l.id < db.nextID
  groupsNodup : (db.groups.map (·.id)).Nodup
  groups : ∀ g ∈ db.groups, g.id < db.nextID

/-- The counter moves on. -/
theorem Keyed.succ {s : Db} (h : Keyed s) : Keyed { s with nextID := s.nextID + 1 } := by
  have hup : ∀ {n : Nat}, n < s.nextID → n < s.nextID + 1 := fun hlt => Nat.lt_succ_of_lt hlt
  exact ⟨fun p hp => hup (h.packages p hp), fun r hr => hup (h.sources r hr),
    fun r hr => hup (h.depends r hr), fun r hr => hup (h.relations r hr),
    fun r hr => (h.packageLicenses r hr).imp hup hup,
    fun r hr => (h.packageGroups r hr).imp hup hup, h.licensesNodup,
    fun l hl => hup (h.licenses l hl), h.groupsNodup, fun g hg => hup (h.groups g hg)⟩

section Tables

variable {ρ : Type} {key : ρ → Nat} {t added : List ρ} {n : Nat}

theorem key_of_map {β : Type} {row : β → ρ} (h : ∀ b, key (row b) = n) (bs : List β) :
    ∀ r ∈ bs.map row, key r = n := by
  intro r hr
  obtain ⟨b, -, rfl⟩ := List.mem_map.mp hr
  exact h b

/-- The rows of a new id are the ones that were added for it. -/
theorem filter_new (hold : ∀ r ∈ t, key r < n) (hnew : ∀ r ∈ added, key r = n) :
    (t ++ added).filter (key · == n) = added := by
  have hnone : t.filter (key · == n) = [] := by
    rw [List.filter_eq_nil_iff]
    intro r hr
    have hne : key r ≠ n := Nat.ne_of_lt (hold r hr)
    simpa using hne
  rw [List.filter_append, hnone, List.nil_append, List.filter_eq_self]
  intro r hr
  simpa using hnew r hr

/-- The rows of an older id are the ones it had. -/
theorem filter_old {id : Nat} (hid : id < n) (hnew : ∀ r ∈ added, key r = n) :
    (t ++ added).filter (key · == id) = t.filter (key · == id) := by
  have hnone : added.filter (key · == id) = [] := by
    rw [List.filter_eq_nil_iff]
    intro r hr
    have hne : key r ≠ id := by
      rw [hnew r hr]
      omega
    simpa using hne
  rw [List.filter_append, hnone, List.append_nil]

end Tables

/-- Ids that resolve, resolved. -/
theorem forall₂_filterMap {f : Nat → Option String} {same : String → String → Bool}
    {ids : List Nat} {names : List String}
    (h : List.Forall₂ (fun i name => ∃ n, f i = some n ∧ same n name = true) ids names) :
    List.Forall₂ (fun stored name => same stored name = true) (ids.filterMap f) names := by
  induction h with
  | nil => exact .nil
  | cons hhead _ ih =>
      obtain ⟨n, hn, hsame⟩ := hhead
      rw [List.filterMap_cons_some hn]
      exact .cons hsame ih

section OnePackage

variable {cfg : Config} {baseID : Nat} {d : PackageData} {version : String} {s : Db}

/-- The licenses and groups of a stored package, as what linking them did. -/
theorem withPackage_linked (hs : Keyed s) (cfg : Config) (baseID : Nat) (d : PackageData)
    (version : String) :
    ∃ (lic : Registry.State License) (grp : Registry.State Group),
      Registry.Linked (licenseOps cfg) { rows := s.licenses, links := [], next := s.nextID + 1 }
        lic d.licenses ∧
      Registry.Linked (groupOps cfg) { rows := s.groups, links := [], next := lic.next }
        grp d.groups ∧
      (withPackage cfg baseID d version s).licenses = lic.rows ∧
      (withPackage cfg baseID d version s).packageLicenses =
        s.packageLicenses ++ lic.links.map (PackageLicense.mk s.nextID) ∧
      (withPackage cfg baseID d version s).groups = grp.rows ∧
      (withPackage cfg baseID d version s).packageGroups =
        s.packageGroups ++ grp.links.map (PackageGroup.mk s.nextID) ∧
      (withPackage cfg baseID d version s).nextID = grp.next := by
  have hlic : Registry.Linked (licenseOps cfg)
      { rows := s.licenses, links := [], next := s.nextID + 1 } _ d.licenses :=
    Registry.linked_foldl ⟨hs.licensesNodup, fun l hl => Nat.lt_succ_of_lt (hs.licenses l hl)⟩
  refine ⟨_, _, hlic, Registry.linked_foldl ⟨hs.groupsNodup, fun g hg => ?_⟩,
    rfl, rfl, rfl, rfl, rfl⟩
  have hlt := hs.groups g hg
  have hle : s.nextID + 1 ≤ _ := hlic.next_le
  exact Nat.lt_of_lt_of_le (Nat.lt_succ_of_lt hlt) hle

theorem licensesOf_new {lic : Registry.State License} {s' : Db} {names : List String}
    (hs : Keyed s) (h : Registry.Linked (licenseOps cfg)
      { rows := s.licenses, links := [], next := s.nextID + 1 } lic names)
    (hrows : s'.licenses = lic.rows)
    (hlinks : s'.packageLicenses =
      s.packageLicenses ++ lic.links.map (PackageLicense.mk s.nextID)) :
    List.Forall₂ (fun stored name => cfg.sameName stored name = true)
      (licensesOf s' s.nextID) names := by
  obtain ⟨ids, hids, -, hall⟩ := h.links
  have hids' : lic.links = ids := by simpa using hids
  have hfilter : s'.packageLicenses.filter (·.packageID == s.nextID) =
      lic.links.map (PackageLicense.mk s.nextID) := by
    rw [hlinks]
    exact filter_new (fun r hr => (hs.packageLicenses r hr).1) (key_of_map (by intro b; rfl) _)
  have hread : licensesOf s' s.nextID = ids.filterMap (Registry.nameOf (licenseOps cfg) lic.rows) := by
    rw [licensesOf, hfilter, hrows, List.filterMap_map, hids']
    rfl
  rw [hread]
  exact forall₂_filterMap hall

theorem groupsOf_new {grp : Registry.State Group} {s' : Db} {names : List String} {next : Nat}
    (hs : Keyed s) (h : Registry.Linked (groupOps cfg)
      { rows := s.groups, links := [], next := next } grp names)
    (hrows : s'.groups = grp.rows)
    (hlinks : s'.packageGroups = s.packageGroups ++ grp.links.map (PackageGroup.mk s.nextID)) :
    List.Forall₂ (fun stored name => cfg.sameName stored name = true)
      (groupsOf s' s.nextID) names := by
  obtain ⟨ids, hids, -, hall⟩ := h.links
  have hids' : grp.links = ids := by simpa using hids
  have hfilter : s'.packageGroups.filter (·.packageID == s.nextID) =
      grp.links.map (PackageGroup.mk s.nextID) := by
    rw [hlinks]
    exact filter_new (fun r hr => (hs.packageGroups r hr).1) (key_of_map (by intro b; rfl) _)
  have hread : groupsOf s' s.nextID = ids.filterMap (Registry.nameOf (groupOps cfg) grp.rows) := by
    rw [groupsOf, hfilter, hrows, List.filterMap_map, hids']
    rfl
  rw [hread]
  exact forall₂_filterMap hall

/-- **The package that was stored reads back as it was pushed.** -/
theorem holds_withPackage (hs : Keyed s) (hv : d.version = .ok version) :
    Holds cfg (readPackage (withPackage cfg baseID d version s)
      (packageRow baseID d version s.nextID)) d := by
  obtain ⟨lic, grp, hlic, hgrp, hrows, hlinks, hgrows, hglinks, -⟩ :=
    withPackage_linked hs cfg baseID d version
  have hsrc : (withPackage cfg baseID d version s).packageSources.filter
      (·.packageID == s.nextID) = d.sources.map (sourceRow s.nextID) :=
    filter_new hs.sources (key_of_map (by intro b; rfl) _)
  have hdep : (withPackage cfg baseID d version s).packageDepends.filter
      (·.packageID == s.nextID) = d.depends.map (dependencyRow s.nextID) :=
    filter_new hs.depends (key_of_map (by intro b; rfl) _)
  have hrel : (withPackage cfg baseID d version s).packageRelations.filter
      (·.packageID == s.nextID) = d.relations.map (relationRow s.nextID) :=
    filter_new hs.relations (key_of_map (by intro b; rfl) _)
  refine ⟨rfl, hv, rfl, rfl, ?_, ?_, ?_, ?_, ?_⟩
  · show sourcesOf _ s.nextID = _
    rw [sourcesOf, hsrc, List.map_map]
    exact List.map_id _
  · show dependsOf _ s.nextID = _
    rw [dependsOf, hdep, List.map_map]
    exact List.map_id _
  · show relationsOf _ s.nextID = _
    rw [relationsOf, hrel, List.map_map]
    exact List.map_id _
  · exact licensesOf_new hs hlic hrows hlinks
  · exact groupsOf_new hs hgrp hgrows hglinks

/-- No other package reads back differently. -/
theorem readPackage_withPackage (hs : Keyed s) {p : Package} (hp : p.id < s.nextID) :
    readPackage (withPackage cfg baseID d version s) p = readPackage s p := by
  obtain ⟨lic, grp, hlic, hgrp, hrows, hlinks, hgrows, hglinks, -⟩ :=
    withPackage_linked hs cfg baseID d version
  obtain ⟨added, hadd, hadded⟩ := hlic.rows
  obtain ⟨gadded, hgadd, hgadded⟩ := hgrp.rows
  have hle := hlic.next_le
  have hsrc : sourcesOf (withPackage cfg baseID d version s) p.id = sourcesOf s p.id :=
    congrArg (List.map _) (filter_old hp (key_of_map (by intro b; rfl) _))
  have hdep : dependsOf (withPackage cfg baseID d version s) p.id = dependsOf s p.id :=
    congrArg (List.map _) (filter_old hp (key_of_map (by intro b; rfl) _))
  have hrel : relationsOf (withPackage cfg baseID d version s) p.id = relationsOf s p.id :=
    congrArg (List.map _) (filter_old hp (key_of_map (by intro b; rfl) _))
  have hlicenses : licensesOf (withPackage cfg baseID d version s) p.id = licensesOf s p.id := by
    rw [licensesOf, licensesOf, hlinks, filter_old hp (key_of_map (by intro b; rfl) _), hrows, hadd]
    refine List.filterMap_congr fun r hr => ?_
    have hid := (hs.packageLicenses r (List.mem_of_mem_filter hr)).2
    exact Registry.nameOf_append (o := licenseOps cfg) (Nat.lt_succ_of_lt hid) hadded
  have hgroups : groupsOf (withPackage cfg baseID d version s) p.id = groupsOf s p.id := by
    rw [groupsOf, groupsOf, hglinks, filter_old hp (key_of_map (by intro b; rfl) _), hgrows, hgadd]
    refine List.filterMap_congr fun r hr => ?_
    have hid := (hs.packageGroups r (List.mem_of_mem_filter hr)).2
    exact Registry.nameOf_append (o := groupOps cfg)
      (Nat.lt_of_lt_of_le (Nat.lt_succ_of_lt hid) hle) hgadded
  rw [readPackage, readPackage, hsrc, hdep, hrel, hlicenses, hgroups]

/-- The counter stays ahead of every id. -/
theorem keyed_withPackage (hs : Keyed s) : Keyed (withPackage cfg baseID d version s) := by
  obtain ⟨lic, grp, hlic, hgrp, hrows, hlinks, hgrows, hglinks, hnext⟩ :=
    withPackage_linked hs cfg baseID d version
  obtain ⟨ids, hids, hidlt, -⟩ := hlic.links
  obtain ⟨gids, hgids, hgidlt, -⟩ := hgrp.links
  have hle : s.nextID + 1 ≤ lic.next := hlic.next_le
  have hle' : lic.next ≤ grp.next := hgrp.next_le
  have hids' : lic.links = ids := by simpa using hids
  have hgids' : grp.links = gids := by simpa using hgids
  have happend : ∀ {ρ : Type} (key : ρ → Nat) {t added : List ρ},
      (∀ r ∈ t, key r < s.nextID) → (∀ r ∈ added, key r = s.nextID) →
      ∀ r ∈ t ++ added, key r < grp.next := by
    intro ρ key t added hold hnew r hr
    rcases List.mem_append.mp hr with hr | hr
    · have hlt := hold r hr
      omega
    · have heq := hnew r hr
      omega
  constructor
  · rw [hnext]
    exact happend Package.id hs.packages (by simp [packageRow])
  · rw [hnext]
    exact happend PackageSource.packageID hs.sources (key_of_map (by intro b; rfl) _)
  · rw [hnext]
    exact happend PackageDependency.packageID hs.depends (key_of_map (by intro b; rfl) _)
  · rw [hnext]
    exact happend PackageRelation.packageID hs.relations (key_of_map (by intro b; rfl) _)
  · rw [hnext, hlinks, hids']
    intro r hr
    rcases List.mem_append.mp hr with hr | hr
    · have hlt := hs.packageLicenses r hr
      omega
    · obtain ⟨i, hi, rfl⟩ := List.mem_map.mp hr
      have hlt := hidlt i hi
      show s.nextID < grp.next ∧ i < grp.next
      omega
  · rw [hnext, hglinks, hgids']
    intro r hr
    rcases List.mem_append.mp hr with hr | hr
    · have hlt := hs.packageGroups r hr
      omega
    · obtain ⟨i, hi, rfl⟩ := List.mem_map.mp hr
      have hlt := hgidlt i hi
      show s.nextID < grp.next ∧ i < grp.next
      omega
  · rw [hrows]
    exact hlic.keyed.nodup
  · rw [hrows, hnext]
    exact fun l hl => Nat.lt_of_lt_of_le (hlic.keyed.fresh l hl) hle'
  · rw [hgrows]
    exact hgrp.keyed.nodup
  · rw [hgrows, hnext]
    exact hgrp.keyed.fresh

end OnePackage

/-! ### The rows of the other bases -/

/-- The database without the rows of one base, and without the names all bases share. -/
def restOf (baseID : Nat) (db : Db) : Db :=
  { db with
    packageBases := Table.delete (·.id == baseID) db.packageBases
    packages := Table.delete (·.packageBaseID == baseID) db.packages
    packageSources := Table.delete (fun r => ownedBy db baseID r.packageID) db.packageSources
    packageDepends := Table.delete (fun r => ownedBy db baseID r.packageID) db.packageDepends
    packageRelations := Table.delete (fun r => ownedBy db baseID r.packageID) db.packageRelations
    packageLicenses := Table.delete (fun r => ownedBy db baseID r.packageID) db.packageLicenses
    packageGroups := Table.delete (fun r => ownedBy db baseID r.packageID) db.packageGroups
    packageNotifications := Table.delete (·.packageBaseID == baseID) db.packageNotifications
    licenses := []
    groups := []
    nextID := 0 }

/-- No row hangs off a package that is new. -/
theorem delete_owned_push {ρ : Type} (key : ρ → Nat) {t : List ρ} {s s' : Db} {p : Package}
    (hpackages : s'.packages = s.packages ++ [p]) (hid : p.id = s.nextID)
    (hold : ∀ r ∈ t, key r < s.nextID) (baseID : Nat) :
    Table.delete (fun r => ownedBy s' baseID (key r)) t =
      Table.delete (fun r => ownedBy s baseID (key r)) t := by
  refine List.filter_congr fun r hr => ?_
  have hlt := hold r hr
  have hne : (p.id == key r) = false := by
    have hne : p.id ≠ key r := by omega
    simpa using hne
  simp [ownedBy, hpackages, hne]

/-- Rows that were added for a new package of the base are rows of the base. -/
theorem delete_owned_append {ρ β : Type} (key : ρ → Nat) (row : β → ρ) {t : List ρ} {s s' : Db}
    {p : Package} (hpackages : s'.packages = s.packages ++ [p]) (hid : p.id = s.nextID)
    (hold : ∀ r ∈ t, key r < s.nextID) (hrow : ∀ b, key (row b) = s.nextID) (bs : List β) :
    Table.delete (fun r => ownedBy s' p.packageBaseID (key r)) (t ++ bs.map row) =
      Table.delete (fun r => ownedBy s p.packageBaseID (key r)) t := by
  have hnone : (bs.map row).filter (fun r => !ownedBy s' p.packageBaseID (key r)) = [] := by
    rw [List.filter_eq_nil_iff]
    intro r hr
    have hkey : key r = p.id := (key_of_map hrow bs r hr).trans hid.symm
    simp [ownedBy, hpackages, hkey]
  rw [← delete_owned_push key hpackages hid hold, Table.delete, List.filter_append, hnone,
    List.append_nil]
  rfl

theorem restOf_withPackage {s : Db} (hs : Keyed s) (cfg : Config) (baseID : Nat) (d : PackageData)
    (version : String) : restOf baseID (withPackage cfg baseID d version s) = restOf baseID s := by
  obtain ⟨lic, grp, -, -, -, hlinks, -, hglinks, -⟩ := withPackage_linked hs cfg baseID d version
  have hpkg : (withPackage cfg baseID d version s).packages =
      s.packages ++ [packageRow baseID d version s.nextID] := rfl
  have hpackages : Table.delete (·.packageBaseID == baseID)
      (withPackage cfg baseID d version s).packages =
      Table.delete (·.packageBaseID == baseID) s.packages := by
    rw [hpkg, Table.delete, List.filter_append]
    simp [packageRow, Table.delete]
  have hsrc : Table.delete (fun r => ownedBy (withPackage cfg baseID d version s) baseID
      r.packageID) (withPackage cfg baseID d version s).packageSources = _ :=
    delete_owned_append PackageSource.packageID (sourceRow s.nextID) hpkg rfl hs.sources
      (fun _ => rfl) d.sources
  have hdep : Table.delete (fun r => ownedBy (withPackage cfg baseID d version s) baseID
      r.packageID) (withPackage cfg baseID d version s).packageDepends = _ :=
    delete_owned_append PackageDependency.packageID (dependencyRow s.nextID) hpkg rfl hs.depends
      (fun _ => rfl) d.depends
  have hrel : Table.delete (fun r => ownedBy (withPackage cfg baseID d version s) baseID
      r.packageID) (withPackage cfg baseID d version s).packageRelations = _ :=
    delete_owned_append PackageRelation.packageID (relationRow s.nextID) hpkg rfl hs.relations
      (fun _ => rfl) d.relations
  have hlic : Table.delete (fun r => ownedBy (withPackage cfg baseID d version s) baseID
      r.packageID) (withPackage cfg baseID d version s).packageLicenses =
      Table.delete (fun r => ownedBy s baseID r.packageID) s.packageLicenses := by
    rw [hlinks]
    exact delete_owned_append PackageLicense.packageID (PackageLicense.mk s.nextID) hpkg rfl
      (fun r hr => (hs.packageLicenses r hr).1) (fun _ => rfl) lic.links
  have hgrp : Table.delete (fun r => ownedBy (withPackage cfg baseID d version s) baseID
      r.packageID) (withPackage cfg baseID d version s).packageGroups =
      Table.delete (fun r => ownedBy s baseID r.packageID) s.packageGroups := by
    rw [hglinks]
    exact delete_owned_append PackageGroup.packageID (PackageGroup.mk s.nextID) hpkg rfl
      (fun r hr => (hs.packageGroups r hr).1) (fun _ => rfl) grp.links
  rw [restOf, hpackages, hsrc, hdep, hrel, hlic, hgrp]
  rfl

/-! ### The loop -/

/-- After the packages `done`, stored one by one from `s`. -/
structure Saved (cfg : Config) (baseID : Nat) (s : Db) (done : List PackageData) (s' : Db) :
    Prop where
  keyed : Keyed s'
  bases : s'.packageBases = s.packageBases
  packages : ∃ news, s'.packages = s.packages ++ news ∧ (∀ p ∈ news, p.packageBaseID = baseID) ∧
    List.Forall₂ (Holds cfg) (news.map (readPackage s')) done
  rest : restOf baseID s' = restOf baseID s
  licenses : s.licenses <+: s'.licenses
  groups : s.groups <+: s'.groups

theorem Saved.start {s : Db} (hs : Keyed s) (cfg : Config) (baseID : Nat) :
    Saved cfg baseID s [] s :=
  ⟨hs, rfl, ⟨[], by simp, by simp, .nil⟩, rfl, List.prefix_refl _, List.prefix_refl _⟩

theorem Saved.step {cfg : Config} {baseID : Nat} {s s' : Db} {done : List PackageData}
    (h : Saved cfg baseID s done s') {d : PackageData} {version : String}
    (hv : d.version = .ok version) :
    Saved cfg baseID s (done ++ [d]) (withPackage cfg baseID d version s') := by
  obtain ⟨news, hnews, hbase, hall⟩ := h.packages
  obtain ⟨lic, grp, hlic, hgrp, hrows, -, hgrows, -, -⟩ :=
    withPackage_linked h.keyed cfg baseID d version
  obtain ⟨added, hadd, -⟩ := hlic.rows
  obtain ⟨gadded, hgadd, -⟩ := hgrp.rows
  refine ⟨keyed_withPackage h.keyed, h.bases,
    ⟨news ++ [packageRow baseID d version s'.nextID], ?_, ?_, ?_⟩,
    (restOf_withPackage h.keyed cfg baseID d version).trans h.rest, ?_, ?_⟩
  · show s'.packages ++ _ = _
    rw [hnews, List.append_assoc]
  · intro p hp
    rcases List.mem_append.mp hp with hp | hp
    · exact hbase p hp
    · obtain rfl := List.mem_singleton.mp hp
      rfl
  · -- the packages stored before read back as they did
    have hsame : news.map (readPackage (withPackage cfg baseID d version s')) =
        news.map (readPackage s') := by
      refine List.map_congr_left fun p hp => readPackage_withPackage h.keyed ?_
      exact h.keyed.packages p (by simp [hnews, hp])
    rw [List.map_append, hsame]
    exact List.rel_append hall (.cons (holds_withPackage h.keyed hv) .nil)
  · rw [hrows, hadd]
    exact h.licenses.trans (List.prefix_append _ _)
  · rw [hgrows, hgadd]
    exact h.groups.trans (List.prefix_append _ _)

theorem Saved.stored {cfg : Config} {baseID : Nat} {s : Db} {done : List PackageData}
    (d : PackageData) :
    Triple (fun c => Saved cfg baseID s done c.working) (storePackage cfg baseID d) fun _ c =>
      Saved cfg baseID s (done ++ [d]) c.working := by
  intro faults c hc u c' heq
  obtain ⟨version, hv, hworking⟩ := storePackage_spec cfg baseID d c.working faults c rfl u c' heq
  rw [hworking]
  exact hc.step hv

theorem savePackages_spec {s : Db} (hs : Keyed s) (cfg : Config) (baseID : Nat)
    (packages : List PackageData) :
    Triple (fun c => c.working = s) (forEach packages (storePackage cfg baseID)) fun _ c =>
      Saved cfg baseID s packages c.working := by
  have hloop : Triple (fun c => Saved cfg baseID s [] c.working)
      (forEach packages (storePackage cfg baseID)) fun _ c =>
        Saved cfg baseID s packages c.working :=
    Triple.forEach (I := fun done c => Saved cfg baseID s done c.working) [] packages
      fun _ d _ _ => Saved.stored d
  exact hloop.imp (fun c hc => hc ▸ Saved.start hs cfg baseID) fun _ _ h => h

/-! ### The other statements of `saveMetadata` -/

theorem restOf_updatePackageBase {s : Db} {baseID : Nat} {f : PackageBase → PackageBase}
    (hf : ∀ b, (f b).id = b.id) : restOf baseID (s.updatePackageBase baseID f) = restOf baseID s := by
  have hbases : Table.delete (·.id == baseID) (s.updatePackageBase baseID f).packageBases =
      Table.delete (·.id == baseID) s.packageBases := by
    refine Table.filter_update_of_disjoint (fun b => ?_) (fun b hp hq => ?_) _
    · show (!((f b).id == baseID)) = !(b.id == baseID)
      rw [hf]
    · simp [hp] at hq
  rw [restOf, hbases]
  rfl

theorem restOf_deletePackages (baseID : Nat) (s : Db) :
    restOf baseID (s.deletePackages (·.packageBaseID == baseID)) = restOf baseID s := by
  have hnone : ∀ id, ownedBy (s.deletePackages (·.packageBaseID == baseID)) baseID id = false := by
    intro id
    rw [ownedBy, List.any_eq_false]
    intro p hp
    obtain ⟨-, hother⟩ := Table.mem_delete.mp hp
    simp [hother]
  have hgone : ∀ id, (s.packages.any fun p => p.id == id && p.packageBaseID == baseID) =
      ownedBy s baseID id := by
    intro id
    exact congrArg s.packages.any (funext fun p => Bool.and_comm _ _)
  have htwice : Table.delete (·.packageBaseID == baseID)
      (s.deletePackages (·.packageBaseID == baseID)).packages =
      Table.delete (·.packageBaseID == baseID) s.packages :=
    Table.delete_eq_self fun p hp => (Table.mem_delete.mp hp).2
  have hkeep : ∀ {ρ : Type} (t : List ρ), Table.delete (fun _ => false) t = t :=
    fun t => Table.delete_eq_self fun _ _ => rfl
  rw [restOf, htwice]
  simp only [hnone, hkeep]
  simp only [Db.deletePackages, hgone]
  rfl

theorem yields_clearPackages (baseID : Nat) (s : Db) :
    Yields (clearPackages baseID) s () (s.deletePackages (·.packageBaseID == baseID)) := by
  rw [← deletePackages_deleteSources, ← deletePackages_deleteDepends,
    ← deletePackages_deleteRelations, ← deletePackages_deleteLicenses,
    ← deletePackages_deleteGroups]
  exact Yields.bind (Yields.write _ _) (Yields.bind (Yields.write _ _)
    (Yields.bind (Yields.write _ _) (Yields.bind (Yields.write _ _)
      (Yields.bind (Yields.write _ _) (Yields.write _ _)))))

theorem finish_spec (baseID uid : Nat) (wasOrphan : Bool) (s : Db) :
    Triple (fun c => c.working = s) (finish baseID uid wasOrphan) fun _ c =>
      c.committed = c.working ∧ ∃ added,
        c.working = { s with packageNotifications := s.packageNotifications ++ added } ∧
          ∀ n ∈ added, n.packageBaseID = baseID := by
  have hkept : ∀ c : Conn Db, c.working = s → ∃ added : List PackageNotification,
      c.working = { s with packageNotifications := s.packageNotifications ++ added } ∧
        ∀ n ∈ added, n.packageBaseID = baseID := by
    intro c hc
    refine ⟨[], ?_, by simp⟩
    simpa using hc
  refine Triple.bind (R := fun _ c => ∃ added,
      c.working = { s with packageNotifications := s.packageNotifications ++ added } ∧
        ∀ n ∈ added, n.packageBaseID = baseID) ?_ fun _ => ?_
  · refine Triple.when (fun _ => ?_) fun _ => hkept
    refine Triple.bind (Yields.query _ s) fun listed => Triple.assume fun _ => ?_
    refine Triple.when (fun _ => ?_) fun _ => hkept
    unfold insertNotification insertUnique
    refine Triple.constrained fun c hc _ => ?_
    refine ⟨[{ packageBaseID := baseID, userID := uid }], ?_, ?_⟩
    · rw [← hc]
    · intro n hn
      obtain rfl := List.mem_singleton.mp hn
      rfl
  · exact Triple.commit fun c h => ⟨rfl, h⟩

theorem publish_spec (cfg : Config) (user : String) (P : Db → Prop) :
    Triple (fun c => P c.committed) (publish cfg user) fun _ c => P c.committed := by
  refine Triple.bind (R := fun _ c => P c.committed) (Triple.external fun c h => h) fun _ => ?_
  refine Triple.bind (R := fun _ c => P c.committed) (Triple.external fun c h => h) fun _ => ?_
  refine Triple.bind (R := fun _ c => P c.committed) (Triple.query fun c h => h) fun row => ?_
  cases row with
  | none => exact Triple.raise _
  | some u => exact Triple.external fun c h => h

/-! ### `saveMetadata` and `main` -/

/-- From `s` to `s'`, the base has come to have `packages`, and nothing else has changed. -/
structure Pushed (cfg : Config) (pkgbase : String) (baseID : Nat) (packages : List PackageData)
    (s s' : Db) : Prop where
  base : ∃ b, baseByName cfg pkgbase s' = some b ∧ b.id = baseID
  packages : List.Forall₂ (Holds cfg)
    ((s'.packages.filter (·.packageBaseID == baseID)).map (readPackage s')) packages
  rest : restOf baseID s' = restOf baseID s
  licenses : s.licenses <+: s'.licenses
  groups : s.groups <+: s'.groups

theorem Keyed.deletePackages {s : Db} (h : Keyed s) (p : Package → Bool) :
    Keyed (s.deletePackages p) where
  packages q hq := h.packages q (Table.mem_delete.mp hq).1
  sources r hr := h.sources r (Table.mem_delete.mp hr).1
  depends r hr := h.depends r (Table.mem_delete.mp hr).1
  relations r hr := h.relations r (Table.mem_delete.mp hr).1
  packageLicenses r hr := h.packageLicenses r (Table.mem_delete.mp hr).1
  packageGroups r hr := h.packageGroups r (Table.mem_delete.mp hr).1
  licensesNodup := h.licensesNodup
  licenses := h.licenses
  groupsNodup := h.groupsNodup
  groups := h.groups

theorem Keyed.updatePackageBase {s : Db} (h : Keyed s) (id : Nat) (f : PackageBase → PackageBase) :
    Keyed (s.updatePackageBase id f) :=
  ⟨h.packages, h.sources, h.depends, h.relations, h.packageLicenses, h.packageGroups,
    h.licensesNodup, h.licenses, h.groupsNodup, h.groups⟩

/-- An update of a base that keeps its name keeps what the name finds. -/
theorem baseByName_updatePackageBase {cfg : Config} {s : Db} {pkgbase : String} {id : Nat}
    {f : PackageBase → PackageBase} (hname : ∀ b, (f b).name = b.name) :
    baseByName cfg pkgbase (s.updatePackageBase id f) =
      (baseByName cfg pkgbase s).map fun b => if b.id == id then f b else b := by
  have hsame : ((fun b => cfg.sameName b.name pkgbase) ∘ fun b => if b.id == id then f b else b) =
      fun b : PackageBase => cfg.sameName b.name pkgbase := by
    funext b
    show cfg.sameName (if b.id == id then f b else b).name pkgbase = _
    by_cases hid : b.id == id
    · rw [if_pos hid, hname]
    · rw [if_neg hid]
  rw [baseByName, Db.updatePackageBase, Table.update, List.find?_map, hsame]
  rfl

theorem touchBase_name (uid now : Nat) (b : PackageBase) :
    ({ b with modifiedTS := now, packagerUID := some uid, outOfDateTS := none } :
      PackageBase).name = b.name := rfl

theorem takeOver_name (uid : Nat) (b : PackageBase) :
    (if b.maintainerUID = none then { b with maintainerUID := some uid } else b).name = b.name := by
  by_cases hm : b.maintainerUID = none <;> simp [hm]

theorem takeOver_id (uid : Nat) (b : PackageBase) :
    (if b.maintainerUID = none then { b with maintainerUID := some uid } else b).id = b.id := by
  by_cases hm : b.maintainerUID = none <;> simp [hm]

/-- The database when the first package is about to be stored. -/
def cleared (baseID uid now : Nat) (s : Db) : Db :=
  (takeOver baseID uid (touchBase baseID uid now s)).deletePackages (·.packageBaseID == baseID)

section Cleared

variable {s : Db} (baseID uid now : Nat)

theorem keyed_cleared (hs : Keyed s) : Keyed (cleared baseID uid now s) :=
  ((hs.updatePackageBase _ _).updatePackageBase _ _).deletePackages _

theorem restOf_cleared (s : Db) : restOf baseID (cleared baseID uid now s) = restOf baseID s := by
  rw [cleared, restOf_deletePackages, takeOver, restOf_updatePackageBase (takeOver_id uid),
    touchBase, restOf_updatePackageBase]
  intro b
  rfl

theorem baseByName_cleared {cfg : Config} {pkgbase : String} {base : PackageBase}
    (h : baseByName cfg pkgbase s = some base) :
    ∃ b, baseByName cfg pkgbase (cleared baseID uid now s) = some b ∧ b.id = base.id := by
  have hupdates : baseByName cfg pkgbase (cleared baseID uid now s) =
      baseByName cfg pkgbase (takeOver baseID uid (touchBase baseID uid now s)) := rfl
  rw [hupdates, takeOver, baseByName_updatePackageBase (takeOver_name uid), touchBase,
    baseByName_updatePackageBase (touchBase_name uid now), h]
  refine ⟨_, rfl, ?_⟩
  by_cases hid : base.id == baseID
  · by_cases hm : base.maintainerUID = none <;> simp [hid, hm]
  · simp [hid]

end Cleared

/-- What the loop and the notification leave is what the push was for. -/
theorem pushed_of_saved {cfg : Config} {pkgbase : String} {base : PackageBase} {uid now : Nat}
    {packages : List PackageData} {s s' : Db} {added : List PackageNotification}
    (hbase : baseByName cfg pkgbase s = some base)
    (h : Saved cfg base.id (cleared base.id uid now s) packages s')
    (hadded : ∀ n ∈ added, n.packageBaseID = base.id) :
    Pushed cfg pkgbase base.id packages s
      { s' with packageNotifications := s'.packageNotifications ++ added } := by
  obtain ⟨news, hnews, hown, hall⟩ := h.packages
  constructor
  · obtain ⟨b, hb, hid⟩ := baseByName_cleared base.id uid now hbase
    refine ⟨b, ?_, hid⟩
    rw [← hb, baseByName, baseByName, h.bases]
  · have hold : (cleared base.id uid now s).packages.filter (·.packageBaseID == base.id) = [] := by
      rw [List.filter_eq_nil_iff]
      intro p hp
      obtain ⟨-, hother⟩ := Table.mem_delete.mp hp
      simp [hother]
    have hfilter : s'.packages.filter (·.packageBaseID == base.id) = news := by
      rw [hnews, List.filter_append, hold, List.nil_append, List.filter_eq_self]
      intro p hp
      simpa using hown p hp
    show List.Forall₂ (Holds cfg) ((s'.packages.filter _).map _) packages
    rw [hfilter]
    exact hall
  · have hnone : added.filter (fun n => !(n.packageBaseID == base.id)) = [] := by
      rw [List.filter_eq_nil_iff]
      intro n hn
      simp [hadded n hn]
    have hnotifications : Table.delete (·.packageBaseID == base.id)
        (s'.packageNotifications ++ added) =
        Table.delete (·.packageBaseID == base.id) s'.packageNotifications := by
      rw [Table.delete, List.filter_append, hnone, List.append_nil]
      rfl
    rw [← restOf_cleared base.id uid now s, ← h.rest, restOf, hnotifications]
    rfl
  · exact h.licenses
  · exact h.groups

theorem saveMetadata_spec {s : Db} (hs : Keyed s) (cfg : Config) (pkgbase user : String)
    (packages : List PackageData) (now : Nat) :
    Triple (fun c => c.working = s) (saveMetadata cfg pkgbase user packages now) fun _ c =>
      c.committed = c.working ∧ ∃ base, baseByName cfg pkgbase s = some base ∧
        Pushed cfg pkgbase base.id packages s c.committed := by
  refine Triple.bind (Yields.query _ s) fun row => Triple.assume fun hrow => ?_
  cases row with
  | none => exact Triple.raise _
  | some base =>
      refine Triple.bind (Yields.query _ s) fun packager => Triple.assume fun _ => ?_
      cases packager with
      | none => exact Triple.raise _
      | some u =>
          refine Triple.bind (Yields.write _ s) fun _ => Triple.assume fun _ => ?_
          refine Triple.bind (Yields.write _ _) fun _ => Triple.assume fun _ => ?_
          refine Triple.bind (yields_clearPackages base.id _) fun _ => Triple.assume fun _ => ?_
          refine Triple.bind
            (savePackages_spec (keyed_cleared base.id u.id now hs) cfg base.id packages) fun _ => ?_
          intro faults c hsaved v c' heq
          obtain ⟨hcommitted, added, hworking, hadded⟩ :=
            finish_spec base.id u.id base.maintainerUID.isNone c.working faults c rfl v c' heq
          refine ⟨hcommitted, base, hrow.symm, ?_⟩
          rw [hcommitted, hworking]
          exact pushed_of_saved hrow.symm hsaved hadded

/-- The state in which a new base has been added. -/
def created (pkgbase : String) (uid now : Nat) (s : Db) : Db :=
  { s with
    packageBases := s.packageBases ++ [
      { id := s.nextID, name := pkgbase, numVotes := 0, outOfDateTS := none, flaggerComment := ""
        submittedTS := now, modifiedTS := now, flaggerUID := none
        submitterUID := some uid, maintainerUID := some uid, packagerUID := none }]
    packageNotifications :=
      s.packageNotifications ++ [{ packageBaseID := s.nextID, userID := uid }]
    nextID := s.nextID + 1 }

theorem yields_createPkgbase {cfg : Config} {pkgbase user : String} {u : User} {s : Db}
    (huser : userByName cfg user s = some u) (now : Nat) :
    Yields (createPkgbase cfg pkgbase user now) s () (created pkgbase u.id now s) := by
  refine Yields.bind (Yields.query _ s) ?_
  rw [huser]
  show Yields (insertPackageBase cfg pkgbase u.id now >>= fun baseID =>
    insertNotification baseID u.id >>= fun _ => commit) s () _
  unfold insertPackageBase insertNotification insertUnique
  exact Yields.bind (Yields.constrained _ _ _ _)
    (Yields.bind (Yields.constrained _ _ _ _) (Yields.commit _))

theorem createPkgbase_spec (cfg : Config) (pkgbase user : String) (now : Nat) (s : Db) :
    Triple (fun c => c.working = s) (createPkgbase cfg pkgbase user now) fun _ c =>
      ∃ uid, c.working = created pkgbase uid now s := by
  cases huser : userByName cfg user s with
  | some u => exact (yields_createPkgbase huser now).imp (fun _ h => h) fun _ _ h => ⟨u.id, h.2⟩
  | none =>
      refine Triple.bind (Yields.query _ s) fun submitter => Triple.assume fun hnone => ?_
      rw [hnone, huser]
      exact Triple.raise _

theorem keyed_created {s : Db} (hs : Keyed s) (pkgbase : String) (uid now : Nat) :
    Keyed (created pkgbase uid now s) := by
  unfold created
  exact { hs.succ with }

theorem restOf_created (pkgbase : String) (uid now : Nat) (s : Db) :
    restOf s.nextID (created pkgbase uid now s) = restOf s.nextID s := by
  have hbases : Table.delete (·.id == s.nextID) (created pkgbase uid now s).packageBases =
      Table.delete (·.id == s.nextID) s.packageBases := by
    simp [created, Table.delete]
  have hnotifications : Table.delete (·.packageBaseID == s.nextID)
      (created pkgbase uid now s).packageNotifications =
      Table.delete (·.packageBaseID == s.nextID) s.packageNotifications := by
    simp [created, Table.delete]
  rw [restOf, hbases, hnotifications]
  rfl

theorem baseByName_created {cfg : Config} {pkgbase : String} {s : Db}
    (h : baseByName cfg pkgbase s = none) (uid now : Nat) {base : PackageBase}
    (hbase : baseByName cfg pkgbase (created pkgbase uid now s) = some base) :
    base.id = s.nextID := by
  rw [baseByName] at h
  rw [baseByName, created, List.find?_append, h, Option.none_or] at hbase
  have hmem := List.mem_of_find?_eq_some hbase
  obtain rfl := List.mem_singleton.mp hmem
  rfl

/-- The checks and look-ups leave the working state alone. -/
theorem checks_spec (cfg : Config) (privileged : Bool) (blacklist : List String)
    (providers : List OfficialProvider) (baseID : Option Nat) (packages : List PackageData)
    (s : Db) :
    Triple (fun c => c.working = s)
      (forEach packages (checkPackage cfg privileged blacklist providers baseID))
      fun _ c => c.working = s := by
  have hwarn : ∀ privileged message,
      Triple (fun c => c.working = s) (warnOrDie privileged message) fun _ c => c.working = s := by
    intro privileged message
    cases privileged with
    | true => exact Triple.pure fun _ h => h
    | false => exact Triple.raise _
  refine Triple.forEach (I := fun _ c => c.working = s) [] packages fun _ d _ _ => ?_
  refine Triple.bind (R := fun _ c => c.working = s)
    (Triple.when (fun _ => hwarn _ _) fun _ _ h => h) fun _ => ?_
  refine Triple.bind (R := fun _ c => c.working = s) ?_ fun _ => ?_
  · unfold checkProvider
    cases provider? providers d.name with
    | some repo => exact hwarn _ _
    | none => exact Triple.pure fun _ h => h
  · refine Triple.bind (Yields.query _ s) fun taken => Triple.assume fun _ => ?_
    exact Triple.when (fun _ => Triple.raise _) fun _ _ h => h

theorem afterChecks_spec {cfg : Config} {push : Push} {db : Db} (hk : Keyed db) :
    Triple (fun c => c.working = db) (afterChecks cfg push (baseByName cfg push.pkgbase db))
      fun _ c => ∃ baseID, Pushed cfg push.pkgbase baseID push.packages db c.committed := by
  have hpublish := publish_spec cfg push.user fun s =>
    ∃ baseID, Pushed cfg push.pkgbase baseID push.packages db s
  unfold afterChecks
  cases hrow : baseByName cfg push.pkgbase db with
  | some base =>
      show Triple _ (pure () >>= _) _
      rw [Prog.pure_bind]
      refine Triple.bind (saveMetadata_spec hk _ _ _ _ _) fun _ => hpublish.imp ?_ fun _ _ h => h
      intro c hc
      obtain ⟨-, base', -, hpushed⟩ := hc
      exact ⟨base'.id, hpushed⟩
  | none =>
      show Triple _ (createPkgbase _ _ _ _ >>= _) _
      refine Triple.bind (createPkgbase_spec cfg push.pkgbase push.user push.now db) fun _ => ?_
      intro faults c hc u c' heq
      obtain ⟨uid, hworking⟩ := hc
      have hrest : Triple (fun c => c.working = created push.pkgbase uid push.now db)
          (saveMetadata cfg push.pkgbase push.user push.packages push.now >>= fun _ =>
            publish cfg push.user)
          fun _ c => ∃ baseID, Pushed cfg push.pkgbase baseID push.packages db c.committed := by
        refine Triple.bind (saveMetadata_spec (keyed_created hk _ _ _) _ _ _ _ _) fun _ =>
          hpublish.imp ?_ fun _ _ h => h
        intro c hc
        obtain ⟨-, base, hbase, hpushed⟩ := hc
        have hid := baseByName_created hrow uid push.now hbase
        refine ⟨base.id, hpushed.base, hpushed.packages, ?_, hpushed.licenses, hpushed.groups⟩
        rw [hpushed.rest, hid, restOf_created]
      exact hrest faults c hworking u c' heq

/-- **A push that gets through has stored what it was for**, whatever was there before. -/
theorem main_spec {cfg : Config} {push : Push} {db : Db} (hk : Keyed db) :
    Triple (fun c => c.working = db) (main cfg push) fun _ c =>
      ∃ baseID, Pushed cfg push.pkgbase baseID push.packages db c.committed := by
  have hwarn : ∀ b message, Triple (fun c => c.working = db)
      (when b (warnOrDie push.privileged message)) fun _ c => c.working = db := by
    intro b message
    refine Triple.when (fun _ => ?_) fun _ _ h => h
    cases push.privileged with
    | true => exact Triple.pure fun _ h => h
    | false => exact Triple.raise _
  refine Triple.bind (Yields.query _ db) fun row => Triple.assume fun hrow => ?_
  refine Triple.bind (Yields.query _ db) fun blacklist => Triple.assume fun _ => ?_
  refine Triple.bind (hwarn _ _) fun _ => ?_
  refine Triple.bind (Yields.query _ db) fun providers => Triple.assume fun _ => ?_
  refine Triple.bind (checks_spec _ _ _ _ _ _ _) fun _ => ?_
  rw [hrow]
  exact afterChecks_spec hk

/-! ### Names stay unique -/

/-- What the unique index on `Packages.Name` says. -/
def UniqueNames (cfg : Config) (db : Db) : Prop :=
  db.packages.Pairwise fun p q => cfg.sameName p.name q.name = false

theorem keptBy_uniqueNames (cfg : Config) (push : Push) :
    KeptBy cfg push (UniqueNames cfg) where
  stores hs h := by
    cases hs with
    | package p _ hname =>
        refine List.pairwise_append.mpr ⟨h, List.pairwise_singleton _ _, ?_⟩
        intro q hq p' hp'
        obtain rfl := List.mem_singleton.mp hp'
        exact hname q hq
    | _ => exact h
  clear hsub h := List.Pairwise.sublist hsub h
  notify h := h
  touch _ _ _ h := h
  takeOver _ _ _ _ h := h
  create _ _ h _ _ _ _ _ := h

/-- A name stands for one package, so for a package of one base. -/
theorem UniqueNames.eq {cfg : Config} {db : Db} (h : UniqueNames cfg db) {p q : Package}
    (hp : p ∈ db.packages) (hq : q ∈ db.packages) (hname : cfg.sameName p.name q.name = true) :
    p = q := by
  have hforward : db.packages.Pairwise fun p q => cfg.sameName p.name q.name = true → p = q := by
    refine h.imp fun hfalse htrue => ?_
    rw [hfalse] at htrue
    exact absurd htrue (by simp)
  have hflip : db.packages.Pairwise (flip fun p q => cfg.sameName p.name q.name = true → p = q) := by
    refine h.imp fun hfalse htrue => ?_
    have hsymm := (eq_of_beq htrue).symm
    simp [Config.sameName, hsymm] at hfalse
  exact List.Pairwise.forall_of_forall_of_flip (fun _ _ _ => rfl) hforward hflip hp hq hname

end Aurweb.GitUpdate
