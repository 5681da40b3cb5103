/-
Two packages tell the same of each other.

What a package depends on is looked up by the names on its own page; what requires a package is
found by one query over the dependencies of all others.  The first compares strings where the
second has the collation of the table, so an entry of the one may be missing from the other only
where a name is spelled in another way.
-/
import Aurweb.PackagePage
import Aurweb.Proofs.DependencyListing
import Aurweb.Proofs.DependencyLookup
import Aurweb.Proofs.Intact

namespace Aurweb.PackagePage

open Aurblup (OfficialProviders Platform)
open DependencyListing (Requirement byNameAndType byTypeAndName identity packageDependencies)
open DependencyLookup (Item Provider)
open Paging (Arranges)
open Search (Catalogue Collation Dbms)

variable {d : Dbms} {c : Collation d.cfg} {db : Db} {p q : Package}

/-- What the database returns for a page: the rows of each query, in an order that it allows. -/
structure Fetched (d : Dbms) (c : Collation d.cfg) (db : Db) (pkg : Package) where
  deps : List PackageDependency
  reqs : List Requirement
  returned : List Provider → List Provider
  arrangesDeps : Arranges (byTypeAndName c) (packageDependencies db pkg) deps
  arrangesReqs : Arranges (byNameAndType c) (requirements d db pkg) reqs
  returned_perm : ∀ rows, (returned rows).Perm rows

/-- The page of a package, with or without a limit to its listings. -/
def Fetched.page (f : Fetched d c db p) (pf : Platform) (t : OfficialProviders)
    (allDeps allReqs : Bool) : Page :=
  package d.cfg pf db t f.deps f.reqs f.returned allDeps allReqs

/-! ### What is listed -/

section

variable {ρ : Type} {instanceOf : ρ → Nat × DependencyType × String} {rows : List ρ}

theorem mem_of_mem_listing {limit : Nat} {r : ρ} {fetchAll : Bool}
    (hr : r ∈ (DependencyListing.listing instanceOf rows fetchAll limit).1) : r ∈ rows := by
  unfold DependencyListing.listing at hr
  split_ifs at hr
  · exact (Query.groupBy_sublist instanceOf rows).mem hr
  · exact List.mem_of_mem_take ((Query.groupBy_sublist instanceOf _).mem hr)

/-- Without a limit there is an instance of every row. -/
theorem exists_mem_listing (limit : Nat) {r : ρ} (hr : r ∈ rows) :
    ∃ r' ∈ (DependencyListing.listing instanceOf rows true limit).1, instanceOf r' = instanceOf r :=
  Query.exists_mem_groupBy instanceOf hr

end

theorem mem_provides {rel : PackageRelation} :
    rel ∈ provides db p ↔ rel ∈ db.packageRelations ∧ rel.packageID = p.id ∧
      rel.relType = .provides := by
  unfold provides
  rw [List.mem_filter, decide_eq_true_iff]

theorem mem_requirements {r : Requirement} : r ∈ requirements d db p ↔
    r.dependency ∈ db.packageDepends ∧ r.package ∈ db.packages ∧
      r.package.id = r.dependency.packageID ∧
      (p.name :: (provides db p).map (·.relName)).any (d.cfg.sameName r.dependency.depName) =
        true := by
  unfold requirements DependencyListing.pkgRequired
  rw [List.mem_filter, List.mem_flatMap]
  constructor
  · intro ⟨⟨dep, hdep, hr⟩, hany⟩
    obtain ⟨p', hp', rfl⟩ := List.mem_map.mp hr
    obtain ⟨hmem, hid⟩ := List.mem_filter.mp hp'
    exact ⟨hdep, hmem, eq_of_beq hid, hany⟩
  · intro ⟨hdep, hmem, hid, hany⟩
    refine ⟨⟨r.dependency, hdep, List.mem_map.mpr ⟨r.package, ?_, rfl⟩⟩, hany⟩
    exact List.mem_filter.mpr ⟨hmem, beq_iff_eq.mpr hid⟩

theorem mem_packageDependencies {dep : PackageDependency} :
    dep ∈ packageDependencies db q ↔ dep ∈ db.packageDepends ∧ dep.packageID = q.id := by
  unfold packageDependencies
  rw [List.mem_filter, beq_iff_eq]

/-! ### Where an entry leads -/

theorem packageLink_inj {name name' : String}
    (h : packageLink false name = packageLink false name') : name = name' := by
  have hlists := congrArg String.toList h
  simp only [packageLink, Bool.false_eq_true, if_false, String.toList_append] at hlists
  exact String.toList_injective (List.append_cancel_left hlists)

/-- Official packages have their pages on another site. -/
theorem packageLink_official (name name' : String) :
    packageLink true name ≠ packageLink false name' := by
  intro h
  have hhead := congrArg (fun s => s.toList.head?) h
  simp [packageLink, DependencyLookup.officialBase] at hhead

/-- The name is one that the package has, or one that it provides, letter by letter. -/
def Spelled (db : Db) (p : Package) (depName : String) : Prop :=
  depName ∈ p.name :: (provides db p).map (·.relName)

theorem Spelled.any {depName : String} (h : Spelled db p depName) :
    (p.name :: (provides db p).map (·.relName)).any (d.cfg.sameName depName) = true :=
  List.any_eq_true.mpr ⟨depName, h, by simp [Config.sameName]⟩

theorem link_eq_some_iff (l : DependencyLookup.Lookup) (name name' : String) :
    (DependencyLookup.item l name).link = some (packageLink false name') ↔
      l.aurPackages.contains name = true ∧ name = name' := by
  unfold DependencyLookup.item DependencyLookup.pkgnameLink
  cases haur : l.aurPackages.contains name with
  | true =>
      simp only [Bool.not_true, Bool.false_and, Bool.false_eq_true, if_false, if_true, true_and,
        Option.some.injEq]
      exact ⟨packageLink_inj, fun h => congrArg (packageLink false) h⟩
  | false =>
      simp only [Bool.not_false, Bool.true_and, Bool.false_eq_true, if_false, false_and, iff_false]
      split_ifs with hofficial
      · exact id
      · exact fun h => packageLink_official name name' (Option.some.inj h)
      · exact id

/-- An entry leads to the page of a package just if it names the package, or something that the
package provides. -/
theorem mem_links_iff (h : Catalogue d.cfg db) (hp : p ∈ db.packages) (pf : Platform)
    (t : OfficialProviders) {names : List String} {dep : PackageDependency}
    (hname : dep.depName ∈ names) {returned : List Provider → List Provider}
    (hreturned : ∀ rows, (returned rows).Perm rows) :
    packageLink false p.name ∈ links (dep, DependencyLookup.item
        (DependencyLookup.lookupDependencies d.cfg pf db t names returned) dep.depName) ↔
      Spelled db p dep.depName := by
  have haur := DependencyLookup.contains_aurPackages d.cfg pf db t hname returned
  have hperm := DependencyLookup.provides_lookup d.cfg pf db t hname hreturned
  unfold links Spelled
  rw [List.mem_append, List.mem_cons, List.mem_map, List.mem_map, Option.mem_toList]
  have hlink := link_eq_some_iff
    (DependencyLookup.lookupDependencies d.cfg pf db t names returned) dep.depName p.name
  rw [haur] at hlink
  refine (or_congr_left hlink).trans ?_
  constructor
  · intro hleads
    rcases hleads with ⟨-, heq⟩ | ⟨x, hx, heq⟩
    · exact .inl heq
    · rcases List.mem_append.mp (hperm.mem_iff.mp hx) with hx | hx
      · obtain ⟨-, hofficial, rel, hrel, htype, hrelName, p', hp', hid, hpname⟩ :=
          DependencyLookup.mem_aurProviding.mp hx
        rw [hofficial] at heq
        have hsame : p' = p := List.inj_on_of_nodup_map h.packageNames hp' hp
          (congrArg d.cfg.collate (hpname.trans (packageLink_inj heq)))
        exact .inr ⟨rel, mem_provides.mpr ⟨hrel, hid ▸ hsame ▸ rfl, htype⟩, hrelName⟩
      · obtain ⟨r, -, rfl⟩ := List.mem_map.mp hx
        exact absurd heq (packageLink_official _ _)
  · intro hspelled
    rcases hspelled with heq | ⟨rel, hrel, hrelName⟩
    · exact .inl ⟨List.any_eq_true.mpr ⟨p, hp, beq_iff_eq.mpr heq.symm⟩, heq⟩
    · obtain ⟨hmem, hid, htype⟩ := mem_provides.mp hrel
      refine .inr ⟨⟨p.name, dep.depName, false⟩, hperm.mem_iff.mpr ?_, rfl⟩
      exact List.mem_append_left _ (DependencyLookup.mem_aurProviding.mpr
        ⟨rfl, rfl, rel, hmem, htype, hrelName, p, hp, hid.symm, rfl⟩)

/-! ### The two pages -/

theorem mem_dependencies {f : Fetched d c db q} {pf : Platform} {t : OfficialProviders}
    {allDeps allReqs : Bool} {entry : PackageDependency × Item}
    (hentry : entry ∈ (f.page pf t allDeps allReqs).dependencies) :
    entry.1 ∈ db.packageDepends ∧ entry.1.packageID = q.id := by
  obtain ⟨dep, hdep, rfl⟩ := List.mem_map.mp hentry
  exact mem_packageDependencies.mp (f.arrangesDeps.perm.mem_iff.mp (mem_of_mem_listing hdep))

/-- An entry leads where it would if it were looked up alone. -/
theorem leads_iff (h : Catalogue d.cfg db) (hp : p ∈ db.packages) {f : Fetched d c db q}
    {pf : Platform} {t : OfficialProviders} {allDeps allReqs : Bool}
    {entry : PackageDependency × Item}
    (hentry : entry ∈ (f.page pf t allDeps allReqs).dependencies) :
    packageLink false p.name ∈ links entry ↔ Spelled db p entry.1.depName := by
  obtain ⟨dep, hdep, rfl⟩ := List.mem_map.mp hentry
  exact mem_links_iff h hp pf t (List.mem_map_of_mem hdep) f.returned_perm

theorem mem_requiredBy {f : Fetched d c db p} {pf : Platform} {t : OfficialProviders}
    {allDeps allReqs : Bool} {r : Requirement}
    (hr : r ∈ (f.page pf t allDeps allReqs).requiredBy) : r ∈ requirements d db p :=
  f.arrangesReqs.perm.mem_iff.mp (mem_of_mem_listing hr)

/-- What leads to a package requires it. -/
theorem exists_requirement (h : Catalogue d.cfg db) (hp : p ∈ db.packages) (hq : q ∈ db.packages)
    (ofP : Fetched d c db p) {ofQ : Fetched d c db q} {pf : Platform} {t : OfficialProviders}
    {allDeps allDeps' allReqs : Bool} {entry : PackageDependency × Item}
    (hentry : entry ∈ (ofQ.page pf t allDeps allReqs).dependencies)
    (hleads : packageLink false p.name ∈ links entry) :
    ∃ r ∈ (ofP.page pf t allDeps' true).requiredBy,
      r.package = q ∧ identity r.dependency = identity entry.1 := by
  have hspelled := (leads_iff h hp hentry).mp hleads
  obtain ⟨hdep, hid⟩ := mem_dependencies hentry
  have hrow : (⟨entry.1, q⟩ : Requirement) ∈ ofP.reqs :=
    ofP.arrangesReqs.perm.mem_iff.mpr (mem_requirements.mpr ⟨hdep, hq, hid.symm, hspelled.any⟩)
  obtain ⟨r, hr, hsame⟩ : ∃ r ∈ (ofP.page pf t allDeps' true).requiredBy,
      identity r.dependency = identity entry.1 := exists_mem_listing maxListing hrow
  obtain ⟨-, hmem, hof, -⟩ := mem_requirements.mp (mem_requiredBy hr)
  have hpackage : r.package.id = q.id :=
    hof.trans ((congrArg Prod.fst hsame).trans hid)
  exact ⟨r, hr, List.inj_on_of_nodup_map h.packages hmem hq hpackage, hsame⟩

/-- What requires a package, spelled as the package has it, leads to it. -/
theorem exists_entry (h : Catalogue d.cfg db) (hp : p ∈ db.packages) {ofP : Fetched d c db p}
    (ofQ : Fetched d c db q) {pf : Platform} {t : OfficialProviders}
    {allDeps allReqs allReqs' : Bool} {r : Requirement}
    (hr : r ∈ (ofP.page pf t allDeps allReqs).requiredBy) (hpackage : r.package = q)
    (hspelled : Spelled db p r.dependency.depName) :
    ∃ entry ∈ (ofQ.page pf t true allReqs').dependencies,
      identity entry.1 = identity r.dependency ∧ packageLink false p.name ∈ links entry := by
  obtain ⟨hdep, -, hid, -⟩ := mem_requirements.mp (mem_requiredBy hr)
  have hrow : r.dependency ∈ ofQ.deps :=
    ofQ.arrangesDeps.perm.mem_iff.mpr (mem_packageDependencies.mpr ⟨hdep, hpackage ▸ hid.symm⟩)
  obtain ⟨dep, hlisted, hsame⟩ := exists_mem_listing maxListing hrow
  obtain ⟨entry, hentry, rfl⟩ : ∃ entry ∈ (ofQ.page pf t true allReqs').dependencies,
      entry.1 = dep := ⟨_, List.mem_map_of_mem hlisted, rfl⟩
  refine ⟨entry, hentry, hsame, (leads_iff h hp hentry).mpr ?_⟩
  have hdepName : entry.1.depName = r.dependency.depName :=
    congrArg (fun i : Nat × DependencyType × String => i.2.2) hsame
  exact hdepName ▸ hspelled

/-- **Dependencies and requirements are converse.**  On any two pages of a state that a run reaches,
a dependency of `q` that leads to `p` is among what requires `p`; and what requires `p`, if it is
spelled as `p` has it, is a dependency of `q` that leads to `p`.  A limit may leave an entry out of
the page it is read off, never out of the page it is looked for on, which is shown in full. -/
theorem requiredBy_converse (c : Collation d.cfg) (h : Intact d.cfg db) (ops : List Op)
    (hp : p ∈ (Run.exec (step d.cfg) db ops).packages)
    (hq : q ∈ (Run.exec (step d.cfg) db ops).packages) (pf : Platform) (t : OfficialProviders)
    (ofP : Fetched d c (Run.exec (step d.cfg) db ops) p)
    (ofQ : Fetched d c (Run.exec (step d.cfg) db ops) q) (allDeps allReqs : Bool) :
    (∀ entry ∈ (ofQ.page pf t allDeps allReqs).dependencies,
      packageLink false p.name ∈ links entry →
        ∃ r ∈ (ofP.page pf t allDeps true).requiredBy,
          r.package = q ∧ identity r.dependency = identity entry.1) ∧
    (∀ r ∈ (ofP.page pf t allDeps allReqs).requiredBy, r.package = q →
      Spelled (Run.exec (step d.cfg) db ops) p r.dependency.depName →
        ∃ entry ∈ (ofQ.page pf t true allReqs).dependencies,
          identity entry.1 = identity r.dependency ∧ packageLink false p.name ∈ links entry) := by
  have hcatalogue := (h.exec ops).catalogue
  constructor
  · intro entry hentry hleads
    exact exists_requirement hcatalogue hp hq ofP hentry hleads
  · intro r hr hpackage hspelled
    exact exists_entry hcatalogue hp ofQ hr hpackage hspelled

/-! ### Two packages of one base -/

/-- `foo-docs` needs `foo`, and what `foo` provides. -/
def linked : Db :=
  { Rpc.smallCatalogue with
    packageDepends := [
      { packageID := 6, depType := .depends, depName := "foo", depDesc := ""
        depCondition := "", depArch := none },
      { packageID := 6, depType := .makedepends, depName := "libfoo", depDesc := ""
        depCondition := ">=2", depArch := none }]
    packageRelations := [
      { packageID := 5, relType := .provides, relName := "libfoo", relCondition := "=2"
        relArch := none }] }

theorem linked_intact : Intact siteConfig linked where
  wellFormed := { smallCatalogue_intact.wellFormed with }
  listed := { smallCatalogue_intact.listed with }
  stocked := by
    refine ⟨⟨?_, ?_, ?_, ?_, ?_, ?_, ?_, ?_, ?_, ?_⟩, ?_⟩ <;> decide

def oneVote : List Op := [.post 3 (20 * 1000000) (.vote "foo")]

def fetchedFoo : Fetched Rpc.plainDbms (Search.plainCollation siteConfig)
    (Run.exec (step siteConfig) linked oneVote) (Rpc.smallPackage 5 "foo") where
  deps := []
  reqs := linked.packageDepends.map fun dep => ⟨dep, Rpc.smallPackage 6 "foo-docs"⟩
  returned rows := rows
  arrangesDeps := ⟨.of_eq (by decide), .nil⟩
  arrangesReqs := ⟨.of_eq (by decide), by decide⟩
  returned_perm := List.Perm.refl

def fetchedFooDocs : Fetched Rpc.plainDbms (Search.plainCollation siteConfig)
    (Run.exec (step siteConfig) linked oneVote) (Rpc.smallPackage 6 "foo-docs") where
  deps := linked.packageDepends
  reqs := []
  returned rows := rows
  arrangesDeps := ⟨.of_eq (by decide), by decide⟩
  arrangesReqs := ⟨.of_eq (by decide), .nil⟩
  returned_perm := List.Perm.refl

theorem requiredBy_converse_linked :
    (∀ entry ∈ (fetchedFooDocs.page Aurblup.plainPlatform Aurblup.freshTable true true).dependencies,
      packageLink false "foo" ∈ links entry →
        ∃ r ∈ (fetchedFoo.page Aurblup.plainPlatform Aurblup.freshTable true true).requiredBy,
          r.package = Rpc.smallPackage 6 "foo-docs" ∧
            identity r.dependency = identity entry.1) ∧
    (∀ r ∈ (fetchedFoo.page Aurblup.plainPlatform Aurblup.freshTable true true).requiredBy,
      r.package = Rpc.smallPackage 6 "foo-docs" →
      Spelled (Run.exec (step siteConfig) linked oneVote) (Rpc.smallPackage 5 "foo")
        r.dependency.depName →
        ∃ entry ∈ (fetchedFooDocs.page Aurblup.plainPlatform Aurblup.freshTable true
            true).dependencies,
          identity entry.1 = identity r.dependency ∧ packageLink false "foo" ∈ links entry) :=
  requiredBy_converse (d := Rpc.plainDbms) (Search.plainCollation siteConfig) linked_intact oneVote
    (by decide) (by decide) Aurblup.plainPlatform Aurblup.freshTable fetchedFoo fetchedFooDocs
    true true

end Aurweb.PackagePage
