/-
What `parse_dep` takes apart, the RPC puts together.

A dependency is split at its first separator, and what is before it at the first comparison.  On
one line nothing is lost there: the substitution drops what it finds to the end, and the slice
by the length of the name is what has been dropped.  The reader appends the condition to the
name again, so `Rebuilds` follows from `TakenApart`, record by record.
-/
import Aurweb.Proofs.GitUpdateLegacy
import Aurweb.Proofs.Mkpkglists

namespace Aurweb.GitUpdateLegacy

open GitUpdate
open Mkpkglists (entry listAt)
open Rpc (Extra dependencyTypeName relationTypeName typeMapping extraLists)

/-! ### The separator -/

/-- `dep` is what `s` has before its first separator, and `desc` what it has after it. -/
structure Partitions (s dep desc : List Char) : Prop where
  splits : s = dep ++ ':' :: ' ' :: desc ∨ s = dep ∧ desc = []
  first : ¬ [':', ' '] <:+: dep

theorem partition_partitions (s : List Char) : Partitions s (partition s).1 (partition s).2 := by
  induction s using partition.induct with
  | case1 => exact ⟨Or.inr ⟨rfl, rfl⟩, by simp [partition]⟩
  | case2 rest => exact ⟨Or.inl rfl, by simp [partition]⟩
  | case3 c cs hne ih =>
      have heq : partition (c :: cs) = (c :: (partition cs).1, (partition cs).2) := by
        rw [partition]
        exact hne
      rw [heq]
      refine ⟨?_, ?_⟩
      · rcases ih.splits with h | ⟨h, hdesc⟩
        · exact Or.inl (congrArg (List.cons c) h)
        · exact Or.inr ⟨congrArg (List.cons c) h, hdesc⟩
      · intro hinfix
        rcases List.infix_cons_iff.mp hinfix with ⟨tail, htail⟩ | hinfix
        · -- The separator would be at the head of what is taken apart.
          obtain ⟨hc, hdep⟩ := List.cons.inj htail
          have hcs : ∃ rest, cs = ' ' :: rest := by
            rcases ih.splits with h | ⟨h, -⟩
            · exact ⟨_, by rw [h, ← hdep]; rfl⟩
            · exact ⟨_, by rw [h, ← hdep]; rfl⟩
          obtain ⟨rest, hrest⟩ := hcs
          exact hne rest hc.symm hrest
        · exact ih.first hinfix

/-! ### The comparison -/

/-- `<|=|>`. -/
def comparisons : List Char := ['<', '=', '>']

theorem dropConditions_line {cs : List Char} (h : ∀ c ∈ cs, c ≠ '\n') :
    dropConditions true cs = [] := by
  induction cs with
  | nil => rfl
  | cons c cs ih =>
      have hc := h c (by simp)
      simp [dropConditions, hc, ih fun d hd => h d (List.mem_cons_of_mem _ hd)]

/-- On one line the substitution drops what begins with a comparison. -/
theorem dropConditions_eq_takeWhile {cs : List Char} (h : ∀ c ∈ cs, c ≠ '\n') :
    dropConditions false cs = cs.takeWhile fun c => !comparisons.contains c := by
  induction cs with
  | nil => rfl
  | cons c cs ih =>
      have hcs : ∀ d ∈ cs, d ≠ '\n' := fun d hd => h d (List.mem_cons_of_mem _ hd)
      by_cases hc : c = '<' ∨ c = '=' ∨ c = '>'
      · have hmem : comparisons.contains c = true := by simpa [comparisons] using hc
        rw [List.takeWhile_cons_of_neg (by simpa using hmem), dropConditions, if_neg (by simp),
          if_pos hc, dropConditions_line hcs]
      · have hmem : comparisons.contains c = false := by simpa [comparisons] using hc
        rw [List.takeWhile_cons_of_pos (by simpa using hmem), dropConditions, if_neg (by simp),
          if_neg hc, ih hcs]

/-- What `parse_dep` promises of its results. -/
structure TakenApart (depstring name desc cond : String) : Prop where
  plain : ∀ c ∈ name.toList, c ∉ comparisons
  starts : ∀ c ∈ cond.toList.head?, c ∈ comparisons
  partitions : Partitions depstring.toList (name ++ cond).toList desc.toList

/-- A line is cut at its separator, and what is before that at its first comparison. -/
theorem parseDep_eq {depstring : String} (h : '\n' ∉ depstring.toList) :
    let dep := (partition depstring.toList).1
    let p := fun c => !comparisons.contains c
    parseDep depstring = (String.ofList (dep.takeWhile p),
      String.ofList (partition depstring.toList).2, String.ofList (dep.dropWhile p)) := by
  intro dep p
  have hline : ∀ c ∈ dep, c ≠ '\n' := by
    intro c hc heq
    refine h ?_
    rcases (partition_partitions depstring.toList).splits with hs | ⟨hs, -⟩
    · rw [hs, ← heq]
      exact List.mem_append_left _ hc
    · rwa [hs, ← heq]
  have hname : dropConditions false dep = dep.takeWhile p := dropConditions_eq_takeWhile hline
  have happend : dep.takeWhile p ++ dep.dropWhile p = dep := List.takeWhile_append_dropWhile
  have hcond : dep.drop (dropConditions false dep).length = dep.dropWhile p :=
    calc dep.drop (dropConditions false dep).length
        = (dep.takeWhile p ++ dep.dropWhile p).drop (dep.takeWhile p).length := by
          rw [happend, hname]
      _ = dep.dropWhile p := List.drop_left
  show (String.ofList (dropConditions false dep), _,
    String.ofList (dep.drop (dropConditions false dep).length)) = _
  rw [hcond, hname]

/-- The name and the condition together are what is before the separator. -/
theorem parseDep_append_cond {depstring : String} (h : '\n' ∉ depstring.toList) :
    (parseDep depstring).1 ++ (parseDep depstring).2.2 =
      String.ofList (partition depstring.toList).1 := by
  rw [parseDep_eq h, ← String.ofList_append, List.takeWhile_append_dropWhile]

theorem parseDep_takenApart {depstring : String} (h : '\n' ∉ depstring.toList) :
    TakenApart depstring (parseDep depstring).1 (parseDep depstring).2.1
      (parseDep depstring).2.2 where
  plain c hc := by
    rw [parseDep_eq h, String.toList_ofList] at hc
    simpa using List.all_eq_true.mp List.all_takeWhile c hc
  starts c hc := by
    rw [parseDep_eq h, String.toList_ofList] at hc
    have hne : (partition depstring.toList).1.dropWhile
        (fun c => !comparisons.contains c) ≠ [] := List.ne_nil_of_mem (List.mem_of_mem_head? hc)
    rw [List.head?_eq_some_head hne] at hc
    obtain rfl := Option.some.inj hc
    simpa using List.head_dropWhile_not _ hne
  partitions := by
    rw [parseDep_append_cond h, parseDep_eq h, String.toList_ofList, String.toList_ofList]
    exact partition_partitions depstring.toList

/-! ### Reading back -/

/-- The record of a row of `PackageDepends`. -/
def dependencyRecord (row : PackageDependency) : Extra :=
  ⟨row.packageID, dependencyTypeName row.depType, row.depName, row.depCondition⟩

/-- The record of a row of `PackageRelations`. -/
def relationRecord (row : PackageRelation) : Extra :=
  ⟨row.packageID, relationTypeName row.relType, row.relName, row.relCondition⟩

/-- A list of `extra_info`, or the empty one it begins as. -/
def listed (rows : List Extra) (id : Nat) (type : String) : List String :=
  (extraLists rows (id, typeMapping type)).getD []

theorem listed_eq (rows : List Extra) (id : Nat) (type : String) :
    listed rows id type = listAt rows id (typeMapping type) := by
  have hcollect : extraLists rows = Dict.collect (rows.map entry) := rfl
  rw [listed, hcollect, Dict.collect_apply]
  by_cases hnil : Dict.valuesAt (rows.map entry) (id, typeMapping type) = []
  · rw [if_pos hnil, Option.getD_none]
    exact hnil.symm
  · rw [if_neg hnil, Option.getD_some]
    rfl

theorem entry_eq (r : Extra) : entry r = ((r.id, typeMapping r.type), r.name ++ r.cond) := by
  unfold entry
  by_cases hcond : r.cond = ""
  · rw [if_neg (not_not_intro hcond), hcond, String.append_empty]
  · rw [if_pos hcond]

/-- A record adds its name and its condition to its list, at its place. -/
theorem listed_record (before after : List Extra) (id : Nat) (type name cond : String) :
    listed (before ++ ⟨id, type, name, cond⟩ :: after) id type =
      listed before id type ++ (name ++ cond) :: listed after id type := by
  have hself : listAt (⟨id, type, name, cond⟩ :: after) id (typeMapping type) =
      (name ++ cond) :: listAt after id (typeMapping type) := by
    rw [listAt, List.map_cons, entry_eq, Dict.valuesAt_cons, if_pos rfl]
    rfl
  have happend : ∀ rows rows' : List Extra, listAt (rows ++ rows') id (typeMapping type) =
      listAt rows id (typeMapping type) ++ listAt rows' id (typeMapping type) := by
    intro rows rows'
    simp only [listAt, Dict.valuesAt, List.map_append, List.filter_append]
  rw [listed_eq, listed_eq, listed_eq, happend, hself]

/-- Wherever a row stored for the string is among the records, its list has `dep` there. -/
structure ReadBack (depstring dep : String) : Prop where
  dependency : ∀ (id : Nat) (t : DependencyType) (arch : Option String)
      (before after : List Extra),
    let record := dependencyRecord (dependencyRow id (t, Entry.dependency ⟨depstring, arch⟩))
    listed (before ++ record :: after) id (dependencyTypeName t) =
      listed before id (dependencyTypeName t) ++ dep :: listed after id (dependencyTypeName t)
  relation : ∀ (id : Nat) (t : RelationType) (arch : Option String)
      (before after : List Extra),
    let record := relationRecord (relationRow id (t, Entry.relation ⟨depstring, arch⟩))
    listed (before ++ record :: after) id (relationTypeName t) =
      listed before id (relationTypeName t) ++ dep :: listed after id (relationTypeName t)

theorem parseDep_readBack (depstring : String) :
    ReadBack depstring ((parseDep depstring).1 ++ (parseDep depstring).2.2) where
  dependency id t _ before after := listed_record before after id (dependencyTypeName t) _ _
  relation id t _ before after := listed_record before after id (relationTypeName t) _ _

/-- `parse_dep` loses nothing of a line, and the RPC gives back what is before the separator. -/
theorem parseDep_lossless (depstring : String) (h : '\n' ∉ depstring.toList) :
    TakenApart depstring (parseDep depstring).1 (parseDep depstring).2.1
        (parseDep depstring).2.2 ∧
      ReadBack depstring ((parseDep depstring).1 ++ (parseDep depstring).2.2) :=
  ⟨parseDep_takenApart h, parseDep_readBack depstring⟩

theorem parseDep_lossless_optional :
    TakenApart "python>=3.12: for the: scripts" "python" "for the: scripts" ">=3.12" ∧
      ReadBack "python>=3.12: for the: scripts" "python>=3.12" := by
  have h := parseDep_lossless "python>=3.12: for the: scripts" (by simp)
  have hparse : parseDep "python>=3.12: for the: scripts" =
      ("python", "for the: scripts", ">=3.12") := by decide
  rwa [hparse] at h

/-! ### The lists of a package -/

/-- What an entry has before its separator. -/
def Entry.dep (e : Entry) : String := String.ofList (partition e.value.toList).1

theorem typeMapping_dependencyTypeName_inj {t u : DependencyType}
    (h : typeMapping (dependencyTypeName t) = typeMapping (dependencyTypeName u)) : t = u := by
  cases t <;> cases u <;> first | rfl | exact absurd h (by decide)

theorem listed_dependencies (db : Db) (id : Nat) (t : DependencyType) :
    listed (Extra.dependencies db) id (dependencyTypeName t) =
      ((dependsOf db id).filter (·.1 = t)).map fun d => d.2.name ++ d.2.cond := by
  have hkey : ∀ row : PackageDependency,
      (row.packageID, typeMapping (dependencyTypeName row.depType)) =
          (id, typeMapping (dependencyTypeName t)) ↔ row.packageID = id ∧ row.depType = t := by
    intro row
    rw [Prod.mk.injEq]
    exact and_congr_right fun _ => ⟨typeMapping_dependencyTypeName_inj, fun ht => by rw [ht]⟩
  rw [listed_eq]
  unfold listAt Dict.valuesAt Extra.dependencies dependsOf
  simp only [List.map_map, List.filter_map, List.filter_filter]
  have hfilter : ∀ row ∈ db.packageDepends,
      decide ((entry (dependencyRecord row)).1 = (id, typeMapping (dependencyTypeName t))) =
        (decide (row.depType = t) && row.packageID == id) := by
    intro row _
    have hentry : (entry (dependencyRecord row)).1 =
        (row.packageID, typeMapping (dependencyTypeName row.depType)) := by
      rw [entry_eq]
      rfl
    rw [hentry, decide_eq_decide.mpr (hkey row), Bool.decide_and, Bool.and_comm]
    rfl
  calc (db.packageDepends.filter fun row =>
        decide ((entry (dependencyRecord row)).1 = (id, typeMapping (dependencyTypeName t)))).map
          (fun row => (entry (dependencyRecord row)).2)
      = (db.packageDepends.filter fun row => decide (row.depType = t) && row.packageID == id).map
          (fun row => (entry (dependencyRecord row)).2) := by rw [List.filter_congr hfilter]
    _ = _ := List.map_congr_left fun row _ => by rw [entry_eq]; rfl

/-- The RPC lists a package's dependencies as its section has them, up to the separator. -/
theorem Merged.listed_dependencies {cfg : Config} {digits : Digits} {info : Srcinfo} {db : Db}
    {pkg : Package} {pkginfo : String × Section}
    (h : Merged cfg digits info (readPackage db pkg) pkginfo) (t : DependencyType)
    (hline : ∀ e ∈ (pkginfo.2.over info.base).entries (depField t), '\n' ∉ e.value.toList) :
    listed (Extra.dependencies db) pkg.id (dependencyTypeName t) =
      ((pkginfo.2.over info.base).entries (depField t)).map Entry.dep := by
  have hstored : dependsOf db pkg.id = depTypes.flatMap fun u =>
      ((pkginfo.2.over info.base).entries (depField u)).map fun e => (u, e.dependency) := h.depends
  rw [GitUpdateLegacy.listed_dependencies, hstored]
  generalize (pkginfo.2.over info.base).entries = entries at hline
  have honly :
      (depTypes.flatMap fun u => (entries (depField u)).map fun e => (u, e.dependency)).filter
        (fun d => decide (d.1 = t)) = (entries (depField t)).map fun e => (t, e.dependency) := by
    cases t <;> simp [depTypes, List.filter_map, Function.comp_def]
  rw [honly, List.map_map]
  exact List.map_congr_left fun e he => parseDep_append_cond (hline e he)

end Aurweb.GitUpdateLegacy
