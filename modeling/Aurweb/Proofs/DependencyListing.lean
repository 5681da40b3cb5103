/-
What a listing of dependencies hides.

The limit counts rows and the listing instances, so the two say the same when there is a row for
each instance, or when there is nothing beyond the limit.  They also do when the rows within the
limit have every instance there is, and one of them twice: then the listing is shorter than the
limit, and its length is taken for the total.
-/
import Aurweb.DependencyListing
import Aurweb.Proofs.SearchPages

namespace Aurweb.DependencyListing

open Search (Dbms Collation)
open Paging (Arranges)

variable {ρ : Type} {instanceOf : ρ → Nat × DependencyType × String} {rows rows' : List ρ}
  {limit : Nat}

/-- The limited listing has as many entries as it may, all of the full one, and says how many
there are. -/
def TellsAll (instanceOf : ρ → Nat × DependencyType × String) (limit : Nat)
    (limited full : List ρ × Nat) : Prop :=
  limited.1.length = min limit full.2 ∧
    (∀ r ∈ limited.1, instanceOf r ∈ full.1.map instanceOf) ∧ limited.2 = full.2

/-- Nothing is hidden by rows of one instance. -/
def NothingHidden (instanceOf : ρ → Nat × DependencyType × String) (limit : Nat) (rows : List ρ) :
    Prop :=
  (rows.map instanceOf).Nodup ∨ rows.length ≤ limit ∨
    ¬ ((rows.take limit).map instanceOf).Nodup ∧
      ∀ r ∈ rows.drop limit, instanceOf r ∈ (rows.take limit).map instanceOf

theorem mem_full_of_mem_limited (hperm : rows.Perm rows') :
    ∀ r ∈ (listing instanceOf rows false limit).1,
      instanceOf r ∈ (listing instanceOf rows' true limit).1.map instanceOf := by
  intro r hr
  have hrow : r ∈ rows.take limit := (Query.groupBy_sublist instanceOf _).mem hr
  apply Query.mem_map_groupBy.mpr
  exact List.mem_map_of_mem (hperm.mem_iff.mp (List.mem_of_mem_take hrow))

theorem tellsAll_iff (hperm : rows.Perm rows') :
    TellsAll instanceOf limit (listing instanceOf rows false limit)
      (listing instanceOf rows' true limit) ↔ NothingHidden instanceOf limit rows := by
  have hall : (Query.groupBy instanceOf rows').length = (Query.groupBy instanceOf rows).length :=
    (Query.length_groupBy_perm hperm).symm
  have hle := Query.length_groupBy_le instanceOf rows
  unfold TellsAll NothingHidden
  rw [and_iff_right (mem_full_of_mem_limited hperm)]
  show (Query.groupBy instanceOf (rows.take limit)).length =
      min limit (Query.groupBy instanceOf rows').length ∧
    (if (Query.groupBy instanceOf (rows.take limit)).length ≥ limit then rows.length
      else (Query.groupBy instanceOf (rows.take limit)).length) =
        (Query.groupBy instanceOf rows').length ↔ _
  rw [hall]
  rcases Nat.lt_or_ge limit rows.length with hlong | hshort
  · have htake : (rows.take limit).length = limit := by
      rw [List.length_take]
      omega
    have hsub : (Query.groupBy instanceOf (rows.take limit)).length ≤
        (Query.groupBy instanceOf rows).length :=
      Query.length_groupBy_le_of_subset fun r hr =>
        List.mem_map_of_mem (List.mem_of_mem_take hr)
    by_cases hfirst : ((rows.take limit).map instanceOf).Nodup
    · -- The listing is as long as the limit, and the rows are counted.
      have hfull : (Query.groupBy instanceOf (rows.take limit)).length = limit :=
        (Query.length_groupBy_eq_iff.mpr hfirst).trans htake
      rw [hfull, if_pos (le_refl _), eq_comm (a := rows.length), Query.length_groupBy_eq_iff]
      constructor
      · intro ⟨_, hnodup⟩
        exact .inl hnodup
      · intro hcases
        rcases hcases with hnodup | hle' | ⟨hnot, _⟩
        · exact ⟨by omega, hnodup⟩
        · omega
        · exact absurd hfirst hnot
    · -- It is shorter, and its length is the total.
      have hne := mt Query.length_groupBy_eq_iff.mp hfirst
      have hlt : (Query.groupBy instanceOf (rows.take limit)).length < limit := by
        have hle' := Query.length_groupBy_le instanceOf (rows.take limit)
        omega
      rw [if_neg (by omega), ← Query.length_groupBy_take_eq_iff]
      constructor
      · intro ⟨_, heq⟩
        exact .inr (.inr ⟨hfirst, heq⟩)
      · intro hcases
        rcases hcases with hnodup | hle' | ⟨_, heq⟩
        · have hpart := hnodup.sublist ((List.take_sublist limit rows).map instanceOf)
          exact absurd hpart hfirst
        · omega
        · exact ⟨by omega, heq⟩
  · rw [List.take_of_length_le hshort]
    refine iff_of_true ⟨by omega, ?_⟩ (.inr (.inl hshort))
    split_ifs <;> omega

/-- Both listings of a package, whatever order each of the four queries returns its rows in. -/
theorem listings_tellAll_iff (d : Dbms) (c : Collation d.cfg) (db : Db) (pkg : Package)
    (provides : List PackageRelation) (limit : Nat) (deps deps' : List PackageDependency)
    (reqs reqs' : List Requirement)
    (hdeps : Arranges (byTypeAndName c) (packageDependencies db pkg) deps)
    (hdeps' : Arranges (byTypeAndName c) (packageDependencies db pkg) deps')
    (hreqs : Arranges (byNameAndType c)
      (pkgRequired d db pkg.name (provides.map (·.relName))) reqs)
    (hreqs' : Arranges (byNameAndType c)
      (pkgRequired d db pkg.name (provides.map (·.relName))) reqs') :
    (TellsAll identity limit (queryPackageDependencies deps false limit)
        (queryPackageDependencies deps' true limit) ↔ NothingHidden identity limit deps) ∧
    (TellsAll (fun r => identity r.dependency) limit
        (queryRequiredByPackageDependencies reqs false limit)
        (queryRequiredByPackageDependencies reqs' true limit) ↔
      NothingHidden (fun r => identity r.dependency) limit reqs) :=
  ⟨tellsAll_iff (hdeps.perm.trans hdeps'.perm.symm),
    tellsAll_iff (hreqs.perm.trans hreqs'.perm.symm)⟩

/-! ### A dependency of two architectures -/

def dependsOn (depName : String) (depArch : Option String) : PackageDependency where
  packageID := 5
  depType := .depends
  depName := depName
  depDesc := ""
  depCondition := ""
  depArch := depArch

/-- The rows of 21 dependencies, the first of them listed for two architectures. -/
def manyDependencies : List PackageDependency :=
  dependsOn "a" (some "aarch64") :: dependsOn "a" (some "x86_64") ::
    "bcdefghijklmnopqrstu".toList.map fun letter => dependsOn letter.toString none

def manySite : Db := { Rpc.smallCatalogue with packageDepends := manyDependencies }

theorem arranges_manyDependencies :
    Arranges (byTypeAndName (Search.plainCollation siteConfig))
      (packageDependencies manySite (Rpc.smallPackage 5 "foo")) manyDependencies where
  perm := .of_eq (by decide)
  sorted := by decide

theorem listings_tellAll_iff_many :
    (TellsAll identity 20 (queryPackageDependencies manyDependencies false 20)
        (queryPackageDependencies manyDependencies true 20) ↔
      NothingHidden identity 20 manyDependencies) ∧
    (TellsAll (fun r => identity r.dependency) 20
        (queryRequiredByPackageDependencies [] false 20)
        (queryRequiredByPackageDependencies [] true 20) ↔
      NothingHidden (fun r => identity r.dependency) 20 ([] : List Requirement)) :=
  listings_tellAll_iff Rpc.plainDbms (Search.plainCollation siteConfig) manySite
    (Rpc.smallPackage 5 "foo") [] 20 manyDependencies manyDependencies [] []
    arranges_manyDependencies arranges_manyDependencies ⟨.of_eq (by decide), .nil⟩
    ⟨.of_eq (by decide), .nil⟩

theorem not_tellsAll :
    Arranges (byTypeAndName (Search.plainCollation siteConfig))
      (packageDependencies manySite (Rpc.smallPackage 5 "foo")) manyDependencies ∧
    (queryPackageDependencies manyDependencies false 20).1.length = 19 ∧
    (queryPackageDependencies manyDependencies false 20).2 = 19 ∧
    (queryPackageDependencies manyDependencies true 20).2 = 21 :=
  ⟨arranges_manyDependencies, by decide, by decide, by decide⟩

end Aurweb.DependencyListing
