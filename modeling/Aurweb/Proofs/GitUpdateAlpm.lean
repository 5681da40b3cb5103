/-
What the two update hooks store of one `.SRCINFO`.

The legacy hook stores the common values of a field once and under no architecture, and those
for an architecture of the package under that one.  The other hook goes through the
architectures of the base, and what it stores under each are the common values and those for
it; only `any` is no architecture to it.  All else is the same, down to the ids of the rows, and
so is every name, description and condition.

`Reads` says that both have read the same file: every value alpm has prints as it is written,
and its merged packages combine what the file has for all architectures and for theirs.  Of the
URL of a package that has none nothing is said.
-/
import Aurweb.GitUpdateAlpm
import Aurweb.Proofs.AlikePushes
import Aurweb.Proofs.GitUpdateLegacy
import Aurweb.Proofs.HookFrame
import Aurweb.Proofs.ParseDep

namespace Aurweb.GitUpdateAlpm

open Txn Txn.Prog GitUpdate
open GitUpdateLegacy (Section Srcinfo Entry Digits Utils Merged partition dropConditions parseDep
  depField relField dropConditions_line)

/-! ### A dependency as it is written -/

/-- `alpm-package-relation`, `alpm-sonamev1` and `alpm-sonamev2`. -/
def RelationOrSoname.written : RelationOrSoname → String
  | .packageRelation relation =>
      relation.name.val ++ (relation.versionRequirement.map VersionRequirement.str).getD ""
  | .sonameV1 (.basic name) => name.val
  | .sonameV1 (.unversioned name soname arch) => s!"{name.val}={soname.val}-{arch.int}"
  | .sonameV1 (.explicit name version arch) => s!"{name.val}={version.val}-{arch.int}"
  | .sonameV2 relation => s!"{relation.lookup.val}:{relation.soname.val}"

def GenericRelation.written : GenericRelation → String
  | .relationOrSoname relation => relation.written
  | .optionalDependency relation =>
      relation.name.val ++ (relation.versionRequirement.map VersionRequirement.str).getD "" ++
        (relation.description.map fun description => ": " ++ description).getD ""

theorem partition_eq_self {cs : List Char} (h : ∀ c ∈ cs, c ≠ ' ') : partition cs = (cs, []) := by
  induction cs with
  | nil => rfl
  | cons c cs ih =>
      have hrest := ih fun d hd => h d (List.mem_cons_of_mem _ hd)
      unfold partition
      split
      · rename_i heq
        cases heq
      · rename_i rest heq
        obtain ⟨-, rfl⟩ := List.cons.inj heq
        exact absurd rfl (h ' ' (by simp))
      · rename_i heq
        obtain ⟨rfl, rfl⟩ := List.cons.inj heq
        rw [hrest]

/-- The description starts at the first colon with a blank behind it. -/
theorem partition_append {cs : List Char} (h : ∀ c ∈ cs, c ≠ ' ') (rest : List Char) :
    partition (cs ++ ':' :: ' ' :: rest) = (cs, rest) := by
  induction cs with
  | nil => rfl
  | cons c cs ih =>
      have hrest := ih fun d hd => h d (List.mem_cons_of_mem _ hd)
      rw [List.cons_append]
      unfold partition
      split
      · rename_i heq
        cases heq
      · rename_i rest' heq
        obtain ⟨-, heq⟩ := List.cons.inj heq
        cases cs with
        | nil => cases heq
        | cons d cs =>
            obtain ⟨rfl, -⟩ := List.cons.inj heq
            exact absurd rfl (h ' ' (by simp))
      · rename_i heq
        obtain ⟨rfl, rfl⟩ := List.cons.inj heq
        rw [hrest]

theorem dropConditions_append {name : List Char} (h : ∀ c ∈ name, c ∉ separators)
    (cs : List Char) : dropConditions false (name ++ cs) = name ++ dropConditions false cs := by
  induction name with
  | nil => rfl
  | cons c name ih =>
      have hc := h c (by simp)
      have hrest := ih fun d hd => h d (List.mem_cons_of_mem _ hd)
      simp only [separators, List.mem_cons, List.not_mem_nil, or_false, not_or] at hc
      simp [dropConditions, hc, hrest]

/-- Nothing, or a comparison that goes on without a blank. -/
structure Condition (cs : List Char) : Prop where
  starts : ∀ c ∈ cs.head?, c ∈ ['<', '=', '>']
  goesOn : ∀ c ∈ cs, c ≠ ' ' ∧ c ≠ '\n'

theorem Condition.nil : Condition [] := ⟨by simp, by simp⟩

theorem Condition.dropConditions {cs : List Char} (h : Condition cs) :
    dropConditions false cs = [] := by
  cases cs with
  | nil => rfl
  | cons c cs =>
      have hc : c = '<' ∨ c = '=' ∨ c = '>' := by simpa using h.starts c rfl
      have hline := dropConditions_line fun d hd => (h.goesOn d (List.mem_cons_of_mem _ hd)).2
      simp [GitUpdateLegacy.dropConditions, hc, hline]

/-- `parse_dep` takes a dependency apart where it has been put together. -/
theorem parseDep_append {name cond : String} (desc : Option String)
    (hname : ∀ c ∈ name.toList, c ∉ separators) (hcond : Condition cond.toList) :
    parseDep (name ++ cond ++ (desc.map fun desc => ": " ++ desc).getD "") =
      (name, desc.getD "", cond) := by
  have hblank : ∀ c ∈ name.toList ++ cond.toList, c ≠ ' ' := by
    intro c hc heq
    rcases List.mem_append.mp hc with hc | hc
    · exact hname c hc (by simp [separators, heq])
    · exact (hcond.goesOn c hc).1 heq
  have hpartition :
      partition (name ++ cond ++ (desc.map fun desc => ": " ++ desc).getD "").toList =
        (name.toList ++ cond.toList, (desc.getD "").toList) := by
    cases desc with
    | none => simpa using partition_eq_self hblank
    | some desc =>
        rw [← partition_append hblank]
        simp [String.toList_append]
  have hdrop : dropConditions false (name.toList ++ cond.toList) = name.toList := by
    rw [dropConditions_append hname, hcond.dropConditions, List.append_nil]
  unfold parseDep
  simp only [hpartition, hdrop, List.drop_left, String.ofList_toList]

theorem Condition.cons {c : Char} {cs : List Char} (hc : c ∈ ['<', '=', '>'])
    (h : ∀ d ∈ cs, d ≠ ' ' ∧ d ≠ '\n') : Condition (c :: cs) where
  starts d hd := by
    obtain rfl : c = d := by simpa using hd
    exact hc
  goesOn d hd := by
    rcases List.mem_cons.mp hd with rfl | hd
    · constructor
      · rintro rfl
        simp at hc
      · rintro rfl
        simp at hc
    · exact h d hd

theorem plain_of_all {s : String} (h : s.toList.all (fun c => !separators.contains c) = true) :
    ∀ c ∈ s.toList, c ∉ separators := by
  intro c hc
  simpa using List.all_eq_true.mp h c hc

theorem goesOn_of_plain {cs : List Char} (h : ∀ c ∈ cs, c ∉ separators) :
    ∀ c ∈ cs, c ≠ ' ' ∧ c ≠ '\n' := by
  intro c hc
  have hsep := h c hc
  simp only [separators, List.mem_cons, not_or] at hsep
  exact ⟨hsep.1, hsep.2.1⟩

theorem condition_requirement (requirement : Option VersionRequirement) :
    Condition ((requirement.map VersionRequirement.str).getD "").toList := by
  cases requirement with
  | none => exact Condition.nil
  | some requirement =>
      obtain ⟨comparison, version⟩ := requirement
      have hversion := goesOn_of_plain version.property
      simp only [Option.map_some, Option.getD_some, VersionRequirement.str, String.toList_append]
      cases comparison with
      | less | greater | equal => exact Condition.cons (by decide) hversion
      | lessOrEqual | greaterOrEqual =>
          refine Condition.cons (by decide) fun c hc => ?_
          rcases List.mem_cons.mp hc with rfl | hc
          · decide
          · exact hversion c hc

/-- A soname or a version, and the format. -/
theorem condition_soname (t : Token) (arch : ElfArchitectureFormat) :
    Condition (s!"={t.val}-{arch.int}").toList := by
  have harch : ∀ c ∈ (toString arch.int).toList, c ∉ separators := by
    cases arch with
    | format32 => exact plain_of_all (by decide)
    | format64 => exact plain_of_all (by decide)
  have hchars : (s!"={t.val}-{arch.int}").toList =
      '=' :: (t.val.toList ++ '-' :: (toString arch.int).toList) := by
    simp [toString, String.toList_append]
  rw [hchars]
  refine Condition.cons (by decide) fun c hc => ?_
  rcases List.mem_append.mp hc with hc | hc
  · exact goesOn_of_plain t.property c hc
  · rcases List.mem_cons.mp hc with rfl | hc
    · decide
    · exact goesOn_of_plain harch c hc

/-- **Both hooks store the same name, description and condition of a dependency.** -/
theorem parseDep_eq (r : GenericRelation) :
    parseDep r.written = (sqlRelName r, sqlRelDescription r, sqlRelRequirement r) := by
  cases r with
  | optionalDependency r =>
      exact parseDep_append r.description r.name.property (condition_requirement _)
  | relationOrSoname r =>
      have hplain : ∀ {name cond : String}, (∀ c ∈ name.toList, c ∉ separators) →
          Condition cond.toList → parseDep (name ++ cond) = (name, "", cond) := by
        intro name cond hname hcond
        have h := parseDep_append none hname hcond
        rwa [Option.map_none, Option.getD_none, String.append_empty] at h
      cases r with
      | packageRelation r => exact hplain r.name.property (condition_requirement _)
      | sonameV1 r =>
          cases r with
          | basic name =>
              have h : parseDep (name.val ++ "") = (name.val, "", "") :=
                hplain name.property Condition.nil
              rwa [String.append_empty] at h
          | unversioned name soname arch =>
              have h := hplain name.property (condition_soname soname arch)
              simpa [RelationOrSoname.written, GenericRelation.written, sqlRelName,
                sqlRelDescription, sqlRelRequirement, SonameV1.name, SonameV1.soname,
                SonameV1.architecture, toString, String.append_assoc] using h
          | explicit name version arch =>
              have h := hplain name.property (condition_soname version arch)
              simpa [RelationOrSoname.written, GenericRelation.written, sqlRelName,
                sqlRelDescription, sqlRelRequirement, SonameV1.name, SonameV1.soname,
                SonameV1.version, SonameV1.architecture, toString, String.append_assoc] using h
      | sonameV2 r =>
          have hname : ∀ c ∈ (s!"{r.lookup.val}:{r.soname.val}").toList, c ∉ separators := by
            intro c hc
            have hchars : (s!"{r.lookup.val}:{r.soname.val}").toList =
                r.lookup.val.toList ++ ':' :: r.soname.val.toList := by
              simp [toString, String.toList_append]
            rw [hchars] at hc
            rcases List.mem_append.mp hc with hc | hc
            · exact r.lookup.property c hc
            · rcases List.mem_cons.mp hc with rfl | hc
              · decide
              · exact r.soname.property c hc
          have h : parseDep (s!"{r.lookup.val}:{r.soname.val}" ++ "") =
              (s!"{r.lookup.val}:{r.soname.val}", "", "") := hplain hname Condition.nil
          rwa [String.append_empty] at h

/-! ### One file, read by both -/

/-- The values of a field for one architecture alone. -/
def valuesFor (s : Section) (field : String) : Architecture → List String
  | .any => []
  | .known name => (s.arr (field ++ "_" ++ name)).getD []

/-- The common values of a field, and those for the architecture. -/
def combined (s : Section) (arch : Architecture) (field : String) : List String :=
  (s.arr field).getD [] ++ valuesFor s field arch

/-- The fields that may be for one architecture alone. -/
def archFields : List String := "source" :: depTypes.map depField ++ relTypes.map relField

theorem depField_mem (t : DependencyType) : depField t ∈ archFields := by
  cases t <;> decide

theorem relField_mem (t : RelationType) : relField t ∈ archFields := by
  cases t <;> decide

/-- What a merged package has of the section of its package, over the section of the base. -/
structure ReadsPackage (architectures : List Architecture) (s : Section) (name : String)
    (package : Architecture → MergedPackage) : Prop where
  name : ∀ a ∈ .any :: architectures, (package a).name = name
  description : ∀ a ∈ .any :: architectures, (package a).description = s.str "pkgdesc"
  url : ∀ a ∈ .any :: architectures, (package a).url = s.str "url"
  licenses : ∀ a ∈ .any :: architectures, (package a).licenses = (s.arr "license").getD []
  groups : ∀ a ∈ .any :: architectures, (package a).groups = (s.arr "groups").getD []
  sources : ∀ a ∈ architectures, (package a).sources = combined s a "source"
  depends : ∀ a ∈ architectures, ∀ t ∈ depTypes,
    ((package a).dependencyGroups t).map GenericRelation.written = combined s a (depField t)
  relations : ∀ a ∈ architectures, ∀ t ∈ relTypes,
    ((package a).relationGroups t).map GenericRelation.written = combined s a (relField t)
  /-- No value is for `any` alone. -/
  any : ∀ field ∈ archFields, (s.arr (field ++ "_" ++ "any")).getD [] = []

/-- The two have been read from one file.  The version is given for the base only. -/
structure Reads (digits : Digits) (info : Srcinfo) (metadata : SourceInfo) : Prop where
  name : info.base.str "pkgbase" = some metadata.name
  epoch : (info.base.str "epoch").map digits.int = metadata.version.epoch.map .ok
  pkgver : info.base.str "pkgver" = some metadata.version.pkgver
  pkgrel : info.base.str "pkgrel" = some metadata.version.pkgrel
  architectures : info.base.arr "arch" = some (metadata.architectures.map Architecture.str)
  version : ∀ entry ∈ info.packages, ∀ field ∈ ["epoch", "pkgver", "pkgrel"],
    entry.2.str field = none
  packages : List.Forall₂ (fun entry package =>
      ReadsPackage metadata.architectures (entry.2.over info.base) entry.1 package)
    info.packages metadata.packages

/-! ### The rows -/

/-- The values of a field for an architecture, the common ones included, all of them under it. -/
def entriesFor (s : Section) (field : String) (arch : Architecture) : List Entry :=
  (combined s arch field).map fun value => { value, arch := sqlArchitecture arch }

/-- A package as it is stored by going through the architectures one after another. -/
structure PerArchitecture (architectures : List Architecture) (info : Srcinfo)
    (rows : PackageRows) (entry : String × Section) : Prop where
  name : rows.name = entry.1
  url : ∀ url, (entry.2.over info.base).str "url" = some url → rows.url = some url
  sources : rows.sources = architectures.flatMap fun a =>
    (entriesFor (entry.2.over info.base) "source" a).map (·.source)
  depends : rows.depends = architectures.flatMap fun a => depTypes.flatMap fun t =>
    (entriesFor (entry.2.over info.base) (depField t) a).map fun e => (t, e.dependency)
  relations : rows.relations = architectures.flatMap fun a => relTypes.flatMap fun t =>
    (entriesFor (entry.2.over info.base) (relField t) a).map fun e => (t, e.relation)

theorem dependency_written (arch : Architecture) (r : GenericRelation) :
    Entry.dependency { value := r.written, arch := sqlArchitecture arch } = dependency arch r := by
  simp only [Entry.dependency, parseDep_eq]
  rfl

theorem relation_written (arch : Architecture) (r : GenericRelation) :
    Entry.relation { value := r.written, arch := sqlArchitecture arch } = relation arch r := by
  simp only [Entry.relation, parseDep_eq]
  rfl

section

variable {digits : Digits} {utils : Utils} {cfg : Config} {info : Srcinfo}
  {metadata : SourceInfo} {entry : String × Section} {package : Architecture → MergedPackage}

/-- Both hooks put the same version together. -/
theorem version_eq (h : Reads digits info metadata) (hentry : entry ∈ info.packages) {s : Section}
    (hs : ∀ field ∈ ["epoch", "pkgver", "pkgrel"],
      s.str field = (entry.2.over info.base).str field) :
    GitUpdateLegacy.version digits s = .ok metadata.version.str := by
  have hbase : ∀ field ∈ ["epoch", "pkgver", "pkgrel"], s.str field = info.base.str field := by
    intro field hfield
    rw [hs field hfield]
    show (entry.2.str field).or (info.base.str field) = info.base.str field
    rw [h.version entry hentry field hfield, Option.none_or]
  have hepoch := h.epoch
  simp only [GitUpdateLegacy.version, Section.getStr, hbase "epoch" (by simp),
    hbase "pkgver" (by simp), hbase "pkgrel" (by simp), h.pkgver, h.pkgrel]
  cases hfield : info.base.str "epoch" with
  | none =>
      cases hversion : metadata.version.epoch with
      | none => simp [FullVersion.str, hversion, bind, Except.bind, pure, Except.pure]
      | some n =>
          rw [hfield, hversion] at hepoch
          cases hepoch
  | some text =>
      cases hversion : metadata.version.epoch with
      | none =>
          rw [hfield, hversion] at hepoch
          cases hepoch
      | some n =>
          rw [hfield, hversion] at hepoch
          have hint : digits.int text = .ok n := Option.some.inj hepoch
          have hpos := metadata.version.epoch_pos n hversion
          simp [FullVersion.str, hversion, hint, hpos, bind, Except.bind, pure, Except.pure]

/-- What the two hooks make of a package is the same apart from its URL and its entries. -/
theorem sameApart (h : Reads digits info metadata) (hentry : entry ∈ info.packages)
    (hp : ReadsPackage metadata.architectures (entry.2.over info.base) entry.1 package) :
    ∃ d, GitUpdateLegacy.packageData digits (utils.getMergedPackage entry.1 info) = .ok d ∧
      SameApart (packageData metadata package) d := by
  have hstr : ∀ field, field ≠ "pkgname" →
      (utils.getMergedPackage entry.1 info).str field = (entry.2.over info.base).str field :=
    utils.str_eq info entry hentry
  have harr : ∀ field, (utils.getMergedPackage entry.1 info).arr field =
      (entry.2.over info.base).arr field :=
    utils.arr_eq info entry hentry
  obtain ⟨arches, harches⟩ : ∃ arches, (entry.2.over info.base).arr "arch" = some arches := by
    show ∃ arches, (entry.2.arr "arch").or (info.base.arr "arch") = some arches
    rw [h.architectures]
    cases entry.2.arr "arch" with
    | none => exact ⟨_, rfl⟩
    | some arches => exact ⟨arches, rfl⟩
  have hversion : GitUpdateLegacy.version digits (utils.getMergedPackage entry.1 info) =
      .ok metadata.version.str := by
    refine version_eq h hentry fun field hfield => hstr field ?_
    rintro rfl
    simp at hfield
  -- Licenses and groups come from the last architecture, but could come from any.
  have hlast : ∃ a ∈ Architecture.any :: metadata.architectures,
      (metadata.architectures.getLast?.map package).getD (package .any) = package a := by
    cases hlast : metadata.architectures.getLast? with
    | none => exact ⟨.any, by simp, rfl⟩
    | some a => exact ⟨a, List.mem_cons_of_mem _ (List.mem_of_getLast? hlast), rfl⟩
  obtain ⟨last, hmem, hlast⟩ := hlast
  have hany : Architecture.any ∈ Architecture.any :: metadata.architectures := by simp
  have hname := utils.pkgname_eq info entry hentry
  refine ⟨_, GitUpdateLegacy.packageData_eq digits hname ((harr "arch").trans harches), ?_⟩
  constructor
  · exact hp.name .any hany
  · exact hversion.symm
  · exact (hp.description .any hany).trans (hstr "pkgdesc" (by decide)).symm
  · show ((metadata.architectures.getLast?.map package).getD (package .any)).licenses =
      ((utils.getMergedPackage entry.1 info).arr "license").getD []
    rw [hlast, hp.licenses last hmem, harr]
  · show ((metadata.architectures.getLast?.map package).getD (package .any)).groups =
      ((utils.getMergedPackage entry.1 info).arr "groups").getD []
    rw [hlast, hp.groups last hmem, harr]

/-- **The rows of a package are those of its section, architecture by architecture.** -/
theorem perArchitecture_of_holds {rows : PackageRows}
    (hp : ReadsPackage metadata.architectures (entry.2.over info.base) entry.1 package)
    (h : Holds cfg rows (packageData metadata package)) :
    PerArchitecture metadata.architectures info rows entry := by
  have hany : Architecture.any ∈ Architecture.any :: metadata.architectures := by simp
  constructor
  · exact h.name.trans (hp.name .any hany)
  · intro url hurl
    rw [h.url]
    show some (strOf (package .any).url) = some url
    rw [hp.url .any hany, hurl]
    rfl
  · rw [h.sources]
    show (metadata.architectures.map fun a => pass a (package a)).flatMap (·.sources) = _
    rw [List.flatMap_map]
    refine List.flatMap_congr fun a ha => ?_
    simp [pass, entriesFor, hp.sources a ha, Entry.source, Function.comp_def]
  · rw [h.depends]
    show (metadata.architectures.map fun a => pass a (package a)).flatMap (·.allDepends) = _
    rw [List.flatMap_map]
    refine List.flatMap_congr fun a ha => List.flatMap_congr fun t ht => ?_
    rw [entriesFor, ← hp.depends a ha t ht]
    simp [pass, dependency_written, Function.comp_def]
  · rw [h.relations]
    show (metadata.architectures.map fun a => pass a (package a)).flatMap (·.allRelations) = _
    rw [List.flatMap_map]
    refine List.flatMap_congr fun a ha => List.flatMap_congr fun t ht => ?_
    rw [entriesFor, ← hp.relations a ha t ht]
    simp [pass, relation_written, Function.comp_def]

/-- Where everything is for `any`, there is nothing between the two. -/
theorem entries_any {s : Section} {field : String} (harch : s.arr "arch" = some ["any"])
    (hnone : (s.arr (field ++ "_" ++ "any")).getD [] = []) :
    s.entries field = entriesFor s field .any := by
  simp [Section.entries, GitUpdateLegacy.archEntries, harch, hnone, entriesFor, combined, valuesFor,
    sqlArchitecture, Architecture.isAny]

/-- The same sources, dependencies and relations. -/
structure SameEntries (rows rows' : PackageRows) : Prop where
  sources : rows.sources = rows'.sources
  depends : rows.depends = rows'.depends
  relations : rows.relations = rows'.relations

theorem sameEntries_of_any {rows rows' : PackageRows}
    (h : PerArchitecture [.any] info rows entry) (h' : Merged cfg digits info rows' entry)
    (harch : (entry.2.over info.base).arr "arch" = some ["any"])
    (hnone : ∀ field ∈ archFields,
      ((entry.2.over info.base).arr (field ++ "_" ++ "any")).getD [] = []) :
    SameEntries rows rows' := by
  have hentries : ∀ field ∈ archFields, (entry.2.over info.base).entries field =
      entriesFor (entry.2.over info.base) field .any :=
    fun field hfield => entries_any harch (hnone field hfield)
  constructor
  · rw [h.sources, h'.sources, hentries "source" (by simp [archFields])]
    simp
  · rw [h.depends, h'.depends, List.flatMap_singleton]
    refine List.flatMap_congr fun t ht => ?_
    rw [hentries (depField t) (depField_mem t)]
  · rw [h.relations, h'.relations, List.flatMap_singleton]
    refine List.flatMap_congr fun t ht => ?_
    rw [hentries (relField t) (relField_mem t)]

/-! ### The two hooks -/

/-- The push, with the `.SRCINFO` as alpm reads it. -/
def alpmPush (push : GitUpdateLegacy.Push) (metadata : SourceInfo) : Push where
  metadata := metadata
  head := push.head
  commits := push.commits
  pkgbase := push.pkgbase
  user := push.user
  privileged := push.privileged
  now := push.now

/-- Both checks let the `.SRCINFO` pass. -/
structure Valid (digits : Digits) (utils : Utils) (cfg : Config) (push : GitUpdateLegacy.Push)
    (metadata : SourceInfo) : Prop where
  legacy : GitUpdateLegacy.validateMetadata digits utils cfg push.head push.metadata = .ok ()
  alpm : validateMetadata push.head metadata = .ok ()
  commits : push.commits = .ok ()

/-- The sources, dependencies and relations of the packages: `rows` from the legacy hook, and
`rows'` from the other one. -/
structure StoredEntries (cfg : Config) (digits : Digits) (info : Srcinfo)
    (metadata : SourceInfo) (rows rows' : List PackageRows) : Prop where
  legacy : List.Forall₂ (Merged cfg digits info) rows info.packages
  alpm : List.Forall₂ (PerArchitecture metadata.architectures info) rows' info.packages
  any : metadata.architectures = [.any] →
    (∀ entry ∈ info.packages, (entry.2.over info.base).arr "arch" = some ["any"]) →
    List.Forall₂ SameEntries rows' rows

theorem packages_eq (utils : Utils) (h : Reads digits info metadata) :
    ∃ ds, (utils.getPackageNames info).mapM (fun pkgname =>
        GitUpdateLegacy.packageData digits (utils.getMergedPackage pkgname info)) = .ok ds ∧
      List.Forall₂ SameApart (metadata.packages.map (packageData metadata)) ds := by
  rw [utils.names_eq, List.mapM_map]
  have hread : List.Forall₂ (fun entry package => entry ∈ info.packages ∧
      ReadsPackage metadata.architectures (entry.2.over info.base) entry.1 package)
      info.packages metadata.packages :=
    (List.forall₂_and_left _ _).mpr ⟨fun entry hentry => hentry, h.packages⟩
  have hdata : List.Forall₂ (fun entry package => ∃ d,
      GitUpdateLegacy.packageData digits (utils.getMergedPackage entry.1 info) = .ok d ∧
        SameApart (packageData metadata package) d) info.packages metadata.packages := by
    refine hread.imp fun entry package hp => ?_
    obtain ⟨hentry, hp⟩ := hp
    exact sameApart h hentry hp
  obtain ⟨ds, hds, hall⟩ := Table.exists_mapM_of_forall₂ hdata
  exact ⟨ds, hds, List.forall₂_map_left_iff.mpr hall⟩

/-- The hooks go on with what they have made of the packages. -/
theorem main_eq {push : GitUpdateLegacy.Push} (h : Reads digits push.metadata metadata)
    (hvalid : Valid digits utils cfg push metadata) :
    ∃ ds, List.Forall₂ SameApart (metadata.packages.map (packageData metadata)) ds ∧
      GitUpdateLegacy.main digits utils cfg push =
        (when (metadata.name != push.pkgbase)
          (raise (.die s!"invalid pkgbase: {metadata.name}, expected {push.pkgbase}")) >>=
        fun _ => GitUpdate.main cfg
          { pkgbase := metadata.name, user := push.user, privileged := push.privileged
            packages := ds, now := push.now }) := by
  obtain ⟨ds, hds, hsame⟩ := packages_eq utils h
  refine ⟨ds, hsame, ?_⟩
  unfold GitUpdateLegacy.main
  rw [hvalid.legacy, hvalid.commits, Section.getStr, h.name, hds]
  rfl

/-- **The two hooks mirror each other.** -/
theorem mirrors_hooks {push : GitUpdateLegacy.Push} (h : Reads digits push.metadata metadata)
    (hvalid : Valid digits utils cfg push metadata) :
    Mirrors withoutEntries (main cfg (alpmPush push metadata))
      (GitUpdateLegacy.main digits utils cfg push) := by
  obtain ⟨ds, hsame, heq⟩ := main_eq h hvalid
  have halpm : main cfg (alpmPush push metadata) =
      (when (metadata.name != push.pkgbase)
        (raise (.die s!"invalid pkgbase: {metadata.name}, expected {push.pkgbase}")) >>=
      fun _ => GitUpdate.main cfg
        { pkgbase := metadata.name, user := push.user, privileged := push.privileged
          packages := metadata.packages.map (packageData metadata), now := push.now }) := by
    have hcheck : validateMetadata (alpmPush push metadata).head
        (alpmPush push metadata).metadata = .ok () := hvalid.alpm
    have hcommits : (alpmPush push metadata).commits = .ok () := hvalid.commits
    unfold main
    rw [hcheck, hcommits]
    rfl
  rw [heq, halpm]
  exact Mirrors.bind (Mirrors.when (Mirrors.raise _)) fun _ => mirrors_main hsame

theorem main_spec {push : Push} {db : Db} (hk : Keyed db) :
    Triple (fun c => c.working = db) (main cfg push) fun _ c =>
      ∃ baseID, Pushed cfg push.pkgbase baseID
        (push.metadata.packages.map (packageData push.metadata)) db c.committed := by
  refine Triple.bind (R := fun _ c => c.working = db) (Triple.ofExcept fun _ _ h _ => h)
    fun _ => ?_
  refine Triple.bind (R := fun _ c => c.working = db) (Triple.ofExcept fun _ _ h _ => h)
    fun _ => ?_
  refine Triple.bind (R := fun _ c => push.metadata.name = push.pkgbase ∧ c.working = db) ?_
    fun _ => ?_
  · refine Triple.when (fun _ => Triple.raise _) fun hsame c hc => ⟨?_, hc⟩
    simpa using hsame
  refine Triple.assume fun hpkgbase => ?_
  rw [← hpkgbase]
  exact GitUpdate.main_spec hk

theorem storedEntries_of_pushed (h : Reads digits info metadata) {legacy alpm db : Db}
    {baseID : Nat} {pkgbase : String} {ds : List PackageData}
    (hds : List.Forall₂ (fun entry d => entry ∈ info.packages ∧
      GitUpdateLegacy.packageData digits (utils.getMergedPackage entry.1 info) = .ok d)
      info.packages ds)
    (hlegacy : Pushed cfg pkgbase baseID ds db legacy)
    (halpm : Pushed cfg pkgbase baseID (metadata.packages.map (packageData metadata)) db alpm) :
    StoredEntries cfg digits info metadata (GitUpdate.metadata legacy baseID)
      (GitUpdate.metadata alpm baseID) := by
  have hmerged : List.Forall₂ (Merged cfg digits info) (GitUpdate.metadata legacy baseID)
      info.packages := by
    refine GitUpdateLegacy.forall₂_trans_flip ?_ hlegacy.packages hds
    intro rows entry d hholds hentry
    exact GitUpdateLegacy.merged_of_holds hentry.1 hentry.2 hholds
  have hper : List.Forall₂ (PerArchitecture metadata.architectures info)
      (GitUpdate.metadata alpm baseID) info.packages := by
    refine GitUpdateLegacy.forall₂_trans_flip ?_
      (List.forall₂_map_right_iff.mp halpm.packages) h.packages
    intro rows entry package hholds hp
    exact perArchitecture_of_holds hp hholds
  refine ⟨hmerged, hper, fun hany harch => ?_⟩
  have hnone : ∀ entry ∈ info.packages, ∀ field ∈ archFields,
      ((entry.2.over info.base).arr (field ++ "_" ++ "any")).getD [] = [] := by
    have hfields : List.Forall₂ (fun entry _ => (∀ field ∈ archFields,
        ((entry.2.over info.base).arr (field ++ "_" ++ "any")).getD [] = []) ∧ True)
        info.packages metadata.packages :=
      h.packages.imp fun _ _ hp => ⟨hp.any, trivial⟩
    exact ((List.forall₂_and_left _ _).mp hfields).1
  rw [hany] at hper
  have hmem : List.Forall₂ (fun entry rows => entry ∈ info.packages ∧
      Merged cfg digits info rows entry) info.packages (GitUpdate.metadata legacy baseID) :=
    (List.forall₂_and_left _ _).mpr ⟨fun entry hentry => hentry, hmerged.flip⟩
  refine GitUpdateLegacy.forall₂_trans_flip ?_ hper hmem.flip
  intro rows rows' entry hrows hrows'
  exact sameEntries_of_any hrows hrows'.2 (harch entry hrows'.1) (hnone entry hrows'.1)

end

/-- The run of a hook in which nothing goes wrong on the way. -/
def undisturbed (hook : Hook Unit) (db : Db) : Except Failure Unit × Db :=
  hook.run (fun _ => none) db

def splitInfo : Srcinfo where
  base := {
    str := fun field =>
      if field = "pkgbase" then some "foo"
      else if field = "pkgver" ∨ field = "pkgrel" then some "1"
      else if field = "url" then some "https://foo.org/"
      else none
    arr := fun field =>
      if field = "arch" then some ["x86_64", "aarch64"]
      else if field = "depends" then some ["glibc>=2"]
      else if field = "depends_x86_64" then some ["libfoo.so=1-64"]
      else if field = "license" then some ["MIT"]
      else none }
  packages := [
    ("foo", { str := fun _ => none, arr := fun _ => none }),
    ("foo-doc", {
      str := fun field => if field = "pkgdesc" then some "What foo does" else none
      arr := fun field =>
        if field = "arch" then some ["any"]
        else if field = "depends" ∨ field = "depends_x86_64" then some []
        else if field = "optdepends" then some ["foo: to try it"]
        else none })]
  nodup := by decide

/-- `glibc>=2`. -/
def glibc : RelationOrSoname :=
  .packageRelation {
    name := ⟨"glibc", plain_of_all (by decide)⟩
    versionRequirement := some ⟨.greaterOrEqual, ⟨"2", plain_of_all (by decide)⟩⟩ }

/-- `libfoo.so=1-64`. -/
def libfoo : RelationOrSoname :=
  .sonameV1 (.explicit ⟨"libfoo.so", plain_of_all (by decide)⟩
    ⟨"1", plain_of_all (by decide)⟩ .format64)

/-- What the two packages have in common. -/
def splitPackage (name : String) : MergedPackage where
  name := name
  description := none
  url := some "https://foo.org/"
  licenses := ["MIT"]
  groups := []
  install := none
  changelog := none
  sources := []
  dependencies := []
  makeDependencies := []
  checkDependencies := []
  optionalDependencies := []
  conflicts := []
  provides := []
  replaces := []

def splitMetadata : SourceInfo where
  name := "foo"
  version := { epoch := none, pkgver := "1", pkgrel := "1", epoch_pos := by simp }
  architectures := [.known "x86_64", .known "aarch64"]
  packages := [
    fun arch => { splitPackage "foo" with
      dependencies := if arch = .known "x86_64" then [glibc, libfoo] else [glibc] },
    fun _ => { splitPackage "foo-doc" with
      description := some "What foo does"
      optionalDependencies := [{
        name := ⟨"foo", plain_of_all (by decide)⟩, versionRequirement := none
        description := some "to try it" }] }]

def splitPush : GitUpdateLegacy.Push where
  metadata := splitInfo
  head := { id := "c0ffee", tree := fun _ => true }
  commits := .ok ()
  pkgbase := "foo"
  user := "alice"
  privileged := false
  now := 5

theorem reads_split : Reads GitUpdateLegacy.asciiDigits splitInfo splitMetadata where
  name := by decide
  epoch := by decide
  pkgver := by decide
  pkgrel := by decide
  architectures := by decide
  version := by decide
  packages := by
    refine .cons ?_ (.cons ?_ .nil)
    · constructor <;> decide +kernel
    · constructor <;> decide +kernel

theorem valid_split :
    Valid GitUpdateLegacy.asciiDigits GitUpdateLegacy.plainUtils plainConfig splitPush
      splitMetadata :=
  ⟨by decide +kernel, by decide +kernel, rfl⟩

/-- What the legacy hook makes of it. -/
def splitLegacy : Except Failure Unit × Db :=
  undisturbed (GitUpdateLegacy.main GitUpdateLegacy.asciiDigits GitUpdateLegacy.plainUtils
    plainConfig splitPush) GitUpdateLegacy.licensedDb

/-- What the other one makes of it. -/
def splitAlpm : Except Failure Unit × Db :=
  undisturbed (main plainConfig (alpmPush splitPush splitMetadata)) GitUpdateLegacy.licensedDb

end Aurweb.GitUpdateAlpm
