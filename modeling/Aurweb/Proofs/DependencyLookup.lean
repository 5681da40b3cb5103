/-
A name on a package's page is told of as if it had been looked up alone.

Rows that the collation lets in for another spelling, or for another name, end up under keys that
nobody asks for (`mem_dependencyProviders`, `mem_aurPackages`).  The set of the official packages
is the exception: it is filled with the names of packages and read with the names of dependencies,
and that comes out right because every official package is in the table as its own provider, which
is what a run of `aurblup` leaves (`Mirrors`).
-/
import Aurweb.DependencyLookup
import Aurweb.Proofs.Aurblup

namespace Aurweb.DependencyLookup

open Aurblup (OfficialProviders Platform SyncDb Mirrors)

variable {cfg : Config} {pf : Platform} {db : Db} {t : OfficialProviders} {names : List String}
  {name : String} {rows : List Provider} {l : Lookup}

/-! ### The loop -/

/-- The package is shown as one that provides something, and not just itself. -/
def Provider.listed (provider : Provider) : Bool :=
  !(provider.isOfficial && provider.provides == provider.name)

theorem aurPackages_add (l : Lookup) (provider : Provider) :
    (l.add provider).aurPackages = l.aurPackages := by
  unfold Lookup.add
  split_ifs <;> rfl

theorem officialPackages_add (l : Lookup) (provider : Provider) :
    (l.add provider).officialPackages =
      l.officialPackages ++ if provider.isOfficial then [provider.name] else [] := by
  unfold Lookup.add
  split_ifs <;> simp

theorem dependencyProviders_add (l : Lookup) (provider : Provider) :
    (l.add provider).dependencyProviders =
      if provider.listed then
        Dict.append l.dependencyProviders (provider.provides, provider)
      else l.dependencyProviders := by
  unfold Lookup.add Provider.listed
  by_cases hofficial : provider.isOfficial = true
  · by_cases hself : provider.provides = provider.name
    · simp [hofficial, hself]
    · simp [hofficial, hself]
  · simp [hofficial]

theorem aurPackages_foldl (rows : List Provider) (l : Lookup) :
    (rows.foldl Lookup.add l).aurPackages = l.aurPackages := by
  induction rows generalizing l with
  | nil => rfl
  | cons provider rows ih => rw [List.foldl_cons, ih, aurPackages_add]

theorem officialPackages_foldl (rows : List Provider) (l : Lookup) :
    (rows.foldl Lookup.add l).officialPackages =
      l.officialPackages ++ (rows.filter (·.isOfficial)).map (·.name) := by
  induction rows generalizing l with
  | nil => simp
  | cons provider rows ih =>
      rw [List.foldl_cons, ih, officialPackages_add]
      by_cases hofficial : provider.isOfficial = true
      · simp [hofficial]
      · simp [hofficial]

theorem dependencyProviders_foldl (rows : List Provider) (l : Lookup) :
    (rows.foldl Lookup.add l).dependencyProviders =
      ((rows.filter Provider.listed).map fun provider => (provider.provides, provider)).foldl
        Dict.append l.dependencyProviders := by
  induction rows generalizing l with
  | nil => rfl
  | cons provider rows ih =>
      rw [List.foldl_cons, ih, dependencyProviders_add]
      by_cases hlisted : provider.listed = true
      · rw [if_pos hlisted, List.filter_cons_of_pos hlisted, List.map_cons, List.foldl_cons]
      · rw [if_neg hlisted, List.filter_cons_of_neg hlisted]

/-! ### One name -/

/-- The packages of the AUR that provide just this name. -/
def aurProviding (db : Db) (name : String) : List Provider :=
  (db.packageRelations.filter fun rel => rel.relType = .provides ∧ rel.relName = name).flatMap
    fun rel => (db.packages.filter (·.id == rel.packageID)).map fun p =>
      { name := p.name, provides := rel.relName, isOfficial := false }

/-- The official packages of another name that do. -/
def officialProviding (t : OfficialProviders) (name : String) : List Provider :=
  (t.rows.filter fun r => r.provides = name ∧ r.name ≠ name).map fun r =>
    { name := r.name, provides := r.provides, isOfficial := true }

theorem filter_aurDepProvides (hname : name ∈ names) :
    (aurDepProvides cfg db names).filter (fun x => x.listed && x.provides == name) =
      aurProviding db name := by
  unfold aurDepProvides aurProviding
  rw [Query.filter_flatMap (q := fun rel => rel.relName == name), List.filter_filter]
  · congr 1
    refine List.filter_congr fun rel _ => ?_
    by_cases hrel : rel.relName = name
    · have hany : names.any (cfg.sameName rel.relName) = true :=
        List.any_eq_true.mpr ⟨name, hname, by simp [hrel, Config.sameName]⟩
      simp [hrel, hrel ▸ hany]
    · simp [hrel]
  · intro rel x hx
    obtain ⟨p, -, rfl⟩ := List.mem_map.mp hx
    rfl

theorem filter_officialDepProvides (hname : name ∈ names) :
    (officialDepProvides pf t names).filter (fun x => x.listed && x.provides == name) =
      officialProviding t name := by
  unfold officialDepProvides officialProviding
  rw [List.filter_map, List.filter_filter]
  congr 1
  refine List.filter_congr fun r _ => ?_
  by_cases hprovides : r.provides = name
  · have hany : names.any (fun n => pf.collate name == pf.collate n) = true :=
      List.any_eq_true.mpr ⟨name, hname, beq_self_eq_true _⟩
    by_cases hself : r.name = name
    · simp [Provider.listed, hprovides, hself]
    · simp [Provider.listed, hprovides, hself, Ne.symm hself, hany]
  · simp [hprovides]

/-- Under the key of a name there is what provides it, whatever else is looked up. -/
theorem provides_lookup (cfg : Config) (pf : Platform) (db : Db) (t : OfficialProviders)
    (hname : name ∈ names) {returned : List Provider → List Provider}
    (hreturned : ∀ rows, (returned rows).Perm rows) :
    (((lookupDependencies cfg pf db t names returned).dependencyProviders name).getD []).Perm
      (aurProviding db name ++ officialProviding t name) := by
  have hfound : ((lookupDependencies cfg pf db t names returned).dependencyProviders name).getD [] =
      (returned (aurDepProvides cfg db names ++ officialDepProvides pf t names)).filter
        fun x => x.listed && x.provides == name := by
    unfold lookupDependencies
    rw [dependencyProviders_foldl, Dict.foldl_append_apply]
    have hvalues : Dict.valuesAt (((returned (aurDepProvides cfg db names ++
        officialDepProvides pf t names)).filter Provider.listed).map
          fun provider => (provider.provides, provider)) name =
        (returned (aurDepProvides cfg db names ++ officialDepProvides pf t names)).filter
          fun x => x.listed && x.provides == name := by
      unfold Dict.valuesAt
      rw [List.filter_map, List.map_map, List.filter_filter]
      show List.map id _ = _
      rw [List.map_id]
      exact List.filter_congr fun x _ => by rw [Bool.and_comm]; rfl
    rw [hvalues]
    split_ifs with hnil
    · exact hnil.symm
    · rfl
  rw [hfound]
  refine ((hreturned _).filter _).trans (.of_eq ?_)
  rw [List.filter_append, filter_aurDepProvides hname, filter_officialDepProvides hname]

theorem contains_aurPackages (cfg : Config) (pf : Platform) (db : Db) (t : OfficialProviders)
    (hname : name ∈ names) (returned : List Provider → List Provider) :
    (lookupDependencies cfg pf db t names returned).aurPackages.contains name =
      db.packages.any (·.name == name) := by
  unfold lookupDependencies
  rw [aurPackages_foldl, Bool.eq_iff_iff, List.contains_iff_mem, List.any_eq_true]
  unfold lookupAurPackages
  rw [List.mem_map]
  constructor
  · intro ⟨p, hp, heq⟩
    exact ⟨p, List.mem_of_mem_filter hp, beq_iff_eq.mpr heq⟩
  · intro ⟨p, hp, heq⟩
    refine ⟨p, List.mem_filter.mpr ⟨hp, List.any_eq_true.mpr ⟨name, hname, ?_⟩⟩, eq_of_beq heq⟩
    rw [eq_of_beq heq]
    exact beq_self_eq_true _

/-- A package of the repositories that has the name. -/
def inRepos (dbs : List SyncDb) (name : String) : Bool :=
  dbs.any fun repo => repo.pkgcache.any (·.name == name)

theorem mem_pairs_iff {dbs : List SyncDb} (hm : Mirrors dbs t) {p : Aurblup.Pair} :
    p ∈ t.pairs ↔ ∃ repo ∈ dbs, ∃ pkg ∈ repo.pkgcache, p.1 = pkg.name ∧
      (p.2 = pkg.name ∨ ∃ provision ∈ pkg.provides, p.2 = provision.name) := by
  obtain ⟨-, hrepo, hall⟩ := Aurblup.mirrors_iff.mp hm
  have hlast : p ∈ t.pairs ↔ (Aurblup.lastRepo dbs p).isSome = true := by
    refine ⟨fun hp => ?_, hall p⟩
    obtain ⟨r, hr, rfl⟩ := List.mem_map.mp hp
    rw [hrepo r hr]
    rfl
  rw [hlast]
  unfold Aurblup.lastRepo
  rw [Option.isSome_map, List.find?_isSome]
  simp only [List.mem_reverse, Aurblup.has_iff, Aurblup.mem_pairs]

/-- A package is in the set for whatever it provides, and it provides itself. -/
theorem contains_officialPackages (cfg : Config) (pf : Platform) (db : Db) {dbs : List SyncDb}
    (hm : Mirrors dbs t) (hname : name ∈ names) {returned : List Provider → List Provider}
    (hreturned : ∀ rows, (returned rows).Perm rows) :
    (lookupDependencies cfg pf db t names returned).officialPackages.contains name =
      inRepos dbs name := by
  unfold lookupDependencies
  rw [officialPackages_foldl, List.nil_append, Bool.eq_iff_iff, List.contains_iff_mem,
    List.mem_map]
  unfold inRepos
  simp only [List.any_eq_true, beq_iff_eq]
  constructor
  · intro ⟨x, hx, heq⟩
    obtain ⟨hrow, hofficial⟩ := List.mem_filter.mp hx
    rcases List.mem_append.mp ((hreturned _).mem_iff.mp hrow) with hrow | hrow
    · obtain ⟨rel, -, hrow⟩ := List.mem_flatMap.mp hrow
      obtain ⟨p, -, rfl⟩ := List.mem_map.mp hrow
      cases hofficial
    · obtain ⟨r, hr, rfl⟩ := List.mem_map.mp hrow
      obtain ⟨repo, hrepo, pkg, hpkg, hof, -⟩ :=
        (mem_pairs_iff hm).mp (List.mem_map_of_mem (List.mem_of_mem_filter hr))
      exact ⟨repo, hrepo, pkg, hpkg, hof.symm.trans heq⟩
  · intro ⟨repo, hrepo, pkg, hpkg, heq⟩
    have hpair : (name, name) ∈ t.pairs :=
      (mem_pairs_iff hm).mpr ⟨repo, hrepo, pkg, hpkg, heq.symm, Or.inl heq.symm⟩
    obtain ⟨r, hr, hof⟩ := List.mem_map.mp hpair
    obtain ⟨hrname, hrprovides⟩ := Prod.mk.inj hof
    refine ⟨⟨r.name, r.provides, true⟩, List.mem_filter.mpr ⟨(hreturned _).mem_iff.mpr ?_, rfl⟩,
      hrname⟩
    refine List.mem_append_right _ (List.mem_map.mpr ⟨r, List.mem_filter.mpr ⟨hr, ?_⟩, rfl⟩)
    refine List.any_eq_true.mpr ⟨name, hname, ?_⟩
    rw [hrprovides]
    exact beq_self_eq_true _

/-! ### The page -/

/-- The package provides the name: one of the AUR, or an official one that does not have it. -/
def Provides (db : Db) (dbs : List SyncDb) (name : String) (x : Provider) : Prop :=
  x.provides = name ∧
    ((x.isOfficial = false ∧ ∃ rel ∈ db.packageRelations, rel.relType = .provides ∧
        rel.relName = name ∧ ∃ p ∈ db.packages, p.id = rel.packageID ∧ p.name = x.name) ∨
      (x.isOfficial = true ∧ x.name ≠ name ∧ ∃ repo ∈ dbs, ∃ pkg ∈ repo.pkgcache,
        x.name = pkg.name ∧ ∃ provision ∈ pkg.provides, name = provision.name))

theorem mem_aurProviding {x : Provider} : x ∈ aurProviding db name ↔
    x.provides = name ∧ x.isOfficial = false ∧ ∃ rel ∈ db.packageRelations,
      rel.relType = .provides ∧ rel.relName = name ∧
        ∃ p ∈ db.packages, p.id = rel.packageID ∧ p.name = x.name := by
  unfold aurProviding
  rw [List.mem_flatMap]
  constructor
  · intro ⟨rel, hrel, hx⟩
    obtain ⟨p, hp, rfl⟩ := List.mem_map.mp hx
    obtain ⟨hrel, hcond⟩ := List.mem_filter.mp hrel
    obtain ⟨htype, hname⟩ := of_decide_eq_true hcond
    obtain ⟨hp, hid⟩ := List.mem_filter.mp hp
    exact ⟨hname, rfl, rel, hrel, htype, hname, p, hp, eq_of_beq hid, rfl⟩
  · intro ⟨hprovides, hofficial, rel, hrel, htype, hname, p, hp, hid, hpname⟩
    refine ⟨rel, List.mem_filter.mpr ⟨hrel, decide_eq_true ⟨htype, hname⟩⟩,
      List.mem_map.mpr ⟨p, List.mem_filter.mpr ⟨hp, beq_iff_eq.mpr hid⟩, ?_⟩⟩
    rw [hpname, hname, ← hprovides, ← hofficial]

theorem mem_officialProviding {dbs : List SyncDb} (hm : Mirrors dbs t) {x : Provider} :
    x ∈ officialProviding t name ↔
      x.provides = name ∧ x.isOfficial = true ∧ x.name ≠ name ∧ ∃ repo ∈ dbs,
        ∃ pkg ∈ repo.pkgcache, x.name = pkg.name ∧
          ∃ provision ∈ pkg.provides, name = provision.name := by
  have hpair : x.name ≠ name → ((x.name, name) ∈ t.pairs ↔ ∃ repo ∈ dbs,
      ∃ pkg ∈ repo.pkgcache, x.name = pkg.name ∧
        ∃ provision ∈ pkg.provides, name = provision.name) := by
    intro hother
    rw [mem_pairs_iff hm]
    refine exists_congr fun repo => and_congr_right fun _ => exists_congr fun pkg =>
      and_congr_right fun _ => and_congr_right fun hof => ?_
    exact or_iff_right fun hself => hother (hof.trans hself.symm)
  unfold officialProviding
  constructor
  · intro hx
    obtain ⟨r, hr, rfl⟩ := List.mem_map.mp hx
    obtain ⟨hr, hcond⟩ := List.mem_filter.mp hr
    obtain ⟨hprovides, hother⟩ := of_decide_eq_true hcond
    refine ⟨hprovides, rfl, hother, (hpair hother).mp ?_⟩
    rw [← hprovides]
    exact List.mem_map_of_mem hr
  · intro ⟨hprovides, hofficial, hother, hrepos⟩
    obtain ⟨r, hr, hof⟩ := List.mem_map.mp ((hpair hother).mpr hrepos)
    obtain ⟨hrname, hrprovides⟩ := Prod.mk.inj hof
    refine List.mem_map.mpr ⟨r, List.mem_filter.mpr ⟨hr, decide_eq_true ⟨hrprovides, ?_⟩⟩, ?_⟩
    · rw [hrname]
      exact hother
    · rw [hrname, hrprovides, ← hprovides, ← hofficial]

/-- What the page is to tell of a name. -/
structure Tells (db : Db) (dbs : List SyncDb) (name : String) (i : Item) : Prop where
  aur : i.aur = db.packages.any (·.name == name)
  /-- A package of the AUR comes before an official one. -/
  link : i.link = if db.packages.any (·.name == name) then some ("/packages/" ++ name)
    else if inRepos dbs name then some (officialBase ++ "/packages/?q=" ++ name) else none
  provides : ∀ x, x ∈ i.provides ↔ Provides db dbs name x
  unknown : i.unknown = true ↔ db.packages.any (·.name == name) = false ∧
    inRepos dbs name = false ∧ ∀ x, ¬Provides db dbs name x

/-- **A name is told of for itself.**  After a run of `aurblup`, and whatever names it is looked up
with, a dependency has the link and the mark of the package that has exactly this name, with all
the packages that provide exactly this name and no others, and it is shown as broken just if there
is none of them: the lookup of many names tells of each what the lookup of that name alone does,
and other spellings that the database takes for it do not come in. -/
theorem tells_of_run (cfg : Config) (pf : Platform) {t₀ : OfficialProviders} {dbs : List SyncDb}
    (ht : Aurblup.Indexed pf t₀) (hmain : Aurblup.main pf t₀ dbs = .ok t) (db : Db)
    (hname : name ∈ names) {returned returned' : List Provider → List Provider}
    (hreturned : ∀ rows, (returned rows).Perm rows)
    (hreturned' : ∀ rows, (returned' rows).Perm rows) :
    Tells db dbs name (item (lookupDependencies cfg pf db t names returned) name) ∧
      (item (lookupDependencies cfg pf db t names returned) name).provides.Perm
        (item (lookupDependencies cfg pf db t [name] returned') name).provides := by
  obtain ⟨-, rfl⟩ := (Aurblup.main_eq_ok_iff ht).mp hmain
  have hm : Mirrors dbs (Aurblup.mirrored pf t₀ dbs) := Aurblup.mirrors_mirrored ht
  have haur := contains_aurPackages cfg pf db (Aurblup.mirrored pf t₀ dbs) hname returned
  have hofficial := contains_officialPackages cfg pf db hm hname hreturned
  have hperm := provides_lookup cfg pf db (Aurblup.mirrored pf t₀ dbs) hname hreturned
  have hprovides : ∀ x, x ∈ ((lookupDependencies cfg pf db (Aurblup.mirrored pf t₀ dbs) names
      returned).dependencyProviders name).getD [] ↔ Provides db dbs name x := by
    intro x
    rw [hperm.mem_iff, List.mem_append, mem_aurProviding, mem_officialProviding hm]
    exact and_or_left.symm
  refine ⟨⟨?_, ?_, hprovides, ?_⟩, hperm.trans (provides_lookup cfg pf db _
    (List.mem_singleton_self name) hreturned').symm⟩
  · simp only [item, haur, hofficial]
    cases db.packages.any (·.name == name) <;> simp
  · simp only [item, pkgnameLink, haur, hofficial]
    cases db.packages.any (·.name == name) <;> cases inRepos dbs name <;> rfl
  · simp only [item, haur, hofficial, Bool.and_eq_true, Bool.not_eq_true', List.isEmpty_iff,
      List.eq_nil_iff_forall_not_mem, hprovides, and_assoc]

/-- A collation that does not tell capital letters apart. -/
def caseless : Config :=
  Config.defaults (fun s => String.ofList (s.toList.map Char.toLower)) fun _ => true

/-- `foo-git` provides what the official `foo` provides, in another spelling too. -/
def twoProviders : Db where
  packages := [{ (default : Package) with id := 1, packageBaseID := 1, name := "foo-git" }]
  packageRelations := [
    { packageID := 1, relType := .provides, relName := "libfoo.so", relCondition := "=2-64"
      relArch := none },
    { packageID := 1, relType := .provides, relName := "LibFoo.so", relCondition := ""
      relArch := none }]

theorem tells_of_run_twoProviders :
    (item (lookupDependencies caseless Aurblup.plainPlatform twoProviders Aurblup.freshTable
        ["foo", "libfoo.so"] id) "libfoo.so").provides =
      [⟨"foo-git", "libfoo.so", false⟩, ⟨"foo", "libfoo.so", true⟩] ∧
    Tells twoProviders Aurblup.twoRepos "libfoo.so"
      (item (lookupDependencies caseless Aurblup.plainPlatform twoProviders Aurblup.freshTable
        ["foo", "libfoo.so"] id) "libfoo.so") := by
  have hindexed : Aurblup.Indexed Aurblup.plainPlatform Aurblup.staleTable :=
    ⟨by decide, by decide, by decide⟩
  have hmain : Aurblup.main Aurblup.plainPlatform Aurblup.staleTable Aurblup.twoRepos =
      .ok Aurblup.freshTable := by decide +kernel
  have htold := tells_of_run caseless Aurblup.plainPlatform hindexed hmain twoProviders
    (show "libfoo.so" ∈ ["foo", "libfoo.so"] by decide) List.Perm.refl List.Perm.refl
  exact ⟨by decide +kernel, htold.1⟩

end Aurweb.DependencyLookup
