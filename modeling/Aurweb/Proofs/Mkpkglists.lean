/-
The records of the archive and those of `type=info`.

The two programs select the same rows for a package (`filter_subqueries`): a `DISTINCT` that only
one of them has finds nothing to leave out, since the keys of the tables do it, and a filter on
the packages comes to the same before and after it.  What is left is what the records have
besides the lists, under fifteen keys, and the two lists that `get_info_json_data` puts in first.
-/
import Aurweb.Mkpkglists
import Aurweb.Proofs.RpcSearch

namespace Aurweb.Mkpkglists

open Rpc
open Search (Catalogue baseOf accountOf)

/-- The keys of the tables that the lists come from. -/
structure Contents (cfg : Config) (db : Db) : Prop where
  packageGroups : db.packageGroups.Nodup
  groups : (db.groups.map (·.id)).Nodup
  groupNames : (db.groups.map fun g => cfg.collate g.name).Nodup
  packageLicenses : db.packageLicenses.Nodup
  licenses : (db.licenses.map (·.id)).Nodup
  licenseNames : (db.licenses.map fun l => cfg.collate l.name).Nodup
  packageKeywords :
    (db.packageKeywords.map fun k => (k.packageBaseID, cfg.collate k.keyword)).Nodup

variable {cfg : Config} {db : Db}

theorem nil_iff_of_perm {α : Type*} {l l' : List α} (h : l.Perm l') : l = [] ↔ l' = [] := by
  constructor
  · rintro rfl
    exact h.nil_eq.symm
  · rintro rfl
    exact h.eq_nil

/-! ### The rows of a package -/

theorem nodup_groups (hc : Contents cfg db) :
    ((Extra.groups db).map (Extra.columns cfg)).Nodup := by
  unfold Extra.groups
  rw [List.map_flatMap]
  simp only [List.map_map]
  apply Query.nodup_references hc.packageGroups hc.groups.of_map
  · intro pg g hg pg' g' hg' heq
    simp only [Function.comp_apply, Extra.columns, Prod.mk.injEq] at heq
    exact List.inj_on_of_nodup_map hc.groupNames hg hg' heq.2.2.1
  · intro pg _ g pg' _ g' hgroup heq
    simp only [Function.comp_apply, Extra.columns, Prod.mk.injEq] at heq
    cases pg
    cases pg'
    simp_all

theorem nodup_licenses (hc : Contents cfg db) :
    ((Extra.licenses db).map (Extra.columns cfg)).Nodup := by
  unfold Extra.licenses
  rw [List.map_flatMap]
  simp only [List.map_map]
  apply Query.nodup_references hc.packageLicenses hc.licenses.of_map
  · intro pl l hl pl' l' hl' heq
    simp only [Function.comp_apply, Extra.columns, Prod.mk.injEq] at heq
    exact List.inj_on_of_nodup_map hc.licenseNames hl hl' heq.2.2.1
  · intro pl _ l pl' _ l' hlicense heq
    simp only [Function.comp_apply, Extra.columns, Prod.mk.injEq] at heq
    cases pl
    cases pl'
    simp_all

theorem nodup_keywords (h : Catalogue cfg db) (hc : Contents cfg db) :
    ((Extra.keywords db).map (Extra.columns cfg)).Nodup := by
  unfold Extra.keywords
  rw [List.map_flatMap]
  simp only [List.map_map]
  apply Query.nodup_references hc.packageKeywords.of_map h.packages_nodup
  · intro k p hp k' p' hp' heq
    simp only [Function.comp_apply, Extra.columns, Prod.mk.injEq] at heq
    exact List.inj_on_of_nodup_map h.packages hp hp' heq.1
  · intro k hk p k' hk' p' hbase heq
    simp only [Function.comp_apply, Extra.columns, Prod.mk.injEq] at heq
    apply List.inj_on_of_nodup_map hc.packageKeywords hk hk'
    rw [hbase, heq.2.2.1]

theorem filter_distinct (cfg : Config) (id : Nat) (rows : List Extra) :
    (Extra.distinct cfg rows).filter (·.id == id) =
      Extra.distinct cfg (rows.filter (·.id == id)) := by
  apply Query.filter_groupBy
  intro r r' heq
  rw [show r.id = r'.id from congrArg Prod.fst heq]

/-- Of the packages that are asked for, a filter on them leaves what there is. -/
theorem filter_contains {ids : List Nat} {id : Nat} (hid : id ∈ ids) (rows : List Extra) :
    (rows.filter (ids.contains ·.id)).filter (·.id == id) = rows.filter (·.id == id) := by
  rw [List.filter_filter]
  refine List.filter_congr fun r _ => ?_
  by_cases hr : r.id = id
  · simp [hr, hid]
  · simp [hr]

theorem distinct_eq_self {rows : List Extra} (h : (rows.map (Extra.columns cfg)).Nodup) (id : Nat) :
    Extra.distinct cfg (rows.filter (·.id == id)) = rows.filter (·.id == id) := by
  apply Query.groupBy_eq_self
  exact h.sublist ((List.filter_sublist ..).map _)

/-- The two unions have the same rows of a package. -/
theorem filter_subqueries (h : Catalogue cfg db) (hc : Contents cfg db) {ids : List Nat} {id : Nat}
    (hid : id ∈ ids) :
    (Rpc.subqueries cfg db ids).filter (·.id == id) = (subqueries cfg db).filter (·.id == id) := by
  unfold Rpc.subqueries subqueries
  simp only [List.filter_append, filter_distinct, filter_contains hid,
    distinct_eq_self (nodup_groups hc), distinct_eq_self (nodup_licenses hc),
    distinct_eq_self (nodup_keywords h hc)]

/-! ### The lists of a package -/

theorem typeMap_eq : typeMap = typeMapping := by
  funext type
  unfold typeMap typeMapping
  rfl

/-- A row as an entry of the dictionary. -/
def entry (r : Extra) : (Nat × String) × String :=
  ((r.id, typeMapping r.type), if r.cond ≠ "" then r.name ++ r.cond else r.name)

theorem getExtendedDict_eq (rows : List Extra) :
    getExtendedDict rows = Dict.collect (rows.map entry) := by
  unfold getExtendedDict
  rw [typeMap_eq]
  rfl

/-- What the rows put under a key of a package. -/
def listAt (rows : List Extra) (id : Nat) (key : String) : List String :=
  Dict.valuesAt (rows.map entry) (id, key)

theorem listAt_filter (rows : List Extra) (id : Nat) (key : String) :
    listAt (rows.filter (·.id == id)) id key = listAt rows id key := by
  unfold listAt Dict.valuesAt
  rw [List.filter_map, List.filter_map, List.filter_filter]
  congr 2
  refine List.filter_congr fun r _ => ?_
  by_cases hr : r.id = id
  · simp [hr]
  · simp [entry, hr]

theorem listAt_perm {rows rows' : List Extra} (h : rows.Perm rows') (id : Nat) (key : String) :
    (listAt rows id key).Perm (listAt rows' id key) := Dict.valuesAt_perm (h.map _) _

theorem collect_listAt (rows : List Extra) (id : Nat) (key : String) :
    (Dict.collect (rows.map entry) (id, key)).map Value.list =
      if listAt rows id key = [] then none else some (.list (listAt rows id key)) := by
  rw [Dict.collect_apply]
  by_cases hnil : listAt rows id key = []
  · rw [if_pos hnil, if_pos (show Dict.valuesAt _ _ = [] from hnil)]
    rfl
  · rw [if_neg hnil, if_neg (show Dict.valuesAt _ _ ≠ [] from hnil)]
    rfl

theorem listAt_ne_nil_iff {rows : List Extra} {id : Nat} {key : String} :
    listAt rows id key ≠ [] ↔ ∃ r ∈ rows, r.id = id ∧ typeMapping r.type = key := by
  unfold listAt Dict.valuesAt
  rw [Ne, List.map_eq_nil_iff, List.filter_map, List.map_eq_nil_iff, List.filter_eq_nil_iff]
  push Not
  refine exists_congr fun r => and_congr_right fun _ => ?_
  simp [entry]

/-! The keys, by the subquery that the row is from. -/

theorem typeMapping_dependency (type : DependencyType) :
    typeMapping (dependencyTypeName type) ∈
      ["Depends", "MakeDepends", "CheckDepends", "OptDepends"] := by
  cases type <;> decide

theorem typeMapping_relation (type : RelationType) :
    typeMapping (relationTypeName type) ∈ ["Conflicts", "Provides", "Replaces"] := by
  cases type <;> decide

theorem mem_distinct {rows : List Extra} {r : Extra} (h : r ∈ Extra.distinct cfg rows) : r ∈ rows :=
  (Query.groupBy_sublist _ _).mem h

/-- Where a row of the union is from, and the key it is for. -/
theorem mem_subqueries {r : Extra} (h : r ∈ subqueries cfg db) :
    typeMapping r.type ∈ ["Depends", "MakeDepends", "CheckDepends", "OptDepends", "Conflicts",
      "Provides", "Replaces", "Groups", "CoMaintainers"] ∨
    (r ∈ Extra.licenses db ∧ typeMapping r.type = "License") ∨
    (r ∈ Extra.keywords db ∧ typeMapping r.type = "Keywords") := by
  unfold subqueries at h
  simp only [List.mem_append] at h
  rcases h with ((((h | h) | h) | h) | h) | h
  · obtain ⟨dep, -, rfl⟩ := List.mem_map.mp (mem_distinct h)
    have hkey := typeMapping_dependency dep.depType
    exact .inl (List.mem_append_left ["Conflicts", "Provides", "Replaces", "Groups",
      "CoMaintainers"] hkey)
  · obtain ⟨rel, -, rfl⟩ := List.mem_map.mp (mem_distinct h)
    have hkey := typeMapping_relation rel.relType
    refine .inl (List.mem_append_right ["Depends", "MakeDepends", "CheckDepends", "OptDepends"] ?_)
    exact List.mem_append_left ["Groups", "CoMaintainers"] hkey
  · unfold Extra.groups at h
    obtain ⟨pg, -, hg⟩ := List.mem_flatMap.mp h
    obtain ⟨g, -, rfl⟩ := List.mem_map.mp hg
    refine .inl ?_
    show typeMapping "Groups" ∈ _
    decide
  · refine .inr (.inl ⟨h, ?_⟩)
    unfold Extra.licenses at h
    obtain ⟨pl, -, hl⟩ := List.mem_flatMap.mp h
    obtain ⟨l, -, rfl⟩ := List.mem_map.mp hl
    rfl
  · refine .inr (.inr ⟨h, ?_⟩)
    unfold Extra.keywords at h
    obtain ⟨k, -, hp⟩ := List.mem_flatMap.mp h
    obtain ⟨p, -, rfl⟩ := List.mem_map.mp hp
    rfl
  · obtain ⟨c, -, hu⟩ := List.mem_flatMap.mp (mem_distinct h)
    obtain ⟨u, -, hp⟩ := List.mem_flatMap.mp hu
    obtain ⟨p, -, rfl⟩ := List.mem_map.mp hp
    refine .inl ?_
    show typeMapping "CoMaintainers" ∈ _
    decide

/-- The keys that have lists. -/
def listKeys : List String :=
  ["Depends", "MakeDepends", "CheckDepends", "OptDepends", "Conflicts", "Provides", "Replaces",
    "Groups", "CoMaintainers", "License", "Keywords"]

theorem listAt_eq_nil {id : Nat} {key : String} (hkey : key ∉ listKeys) :
    listAt (subqueries cfg db) id key = [] := by
  by_contra hne
  obtain ⟨r, hr, -, rfl⟩ := listAt_ne_nil_iff.mp hne
  apply hkey
  unfold listKeys
  rcases mem_subqueries hr with htype | ⟨-, htype⟩ | ⟨-, htype⟩
  · exact List.mem_append_left ["License", "Keywords"] htype
  · rw [htype]
    decide
  · rw [htype]
    decide

/-- The package has a license. -/
def hasLicense (db : Db) (p : Package) : Bool :=
  db.packageLicenses.any fun pl => pl.packageID == p.id && db.licenses.any (·.id == pl.licenseID)

/-- Its base has a keyword. -/
def hasKeyword (db : Db) (p : Package) : Bool :=
  db.packageKeywords.any (·.packageBaseID == p.packageBaseID)

theorem licenses_ne_nil_iff (cfg : Config) {p : Package} :
    listAt (subqueries cfg db) p.id "License" ≠ [] ↔ hasLicense db p = true := by
  rw [listAt_ne_nil_iff, hasLicense, List.any_eq_true]
  simp only [Bool.and_eq_true, beq_iff_eq, List.any_eq_true]
  constructor
  · intro ⟨r, hr, hid, htype⟩
    rcases mem_subqueries hr with hkey | ⟨hmem, -⟩ | ⟨-, hkey⟩
    · rw [htype] at hkey
      exact absurd hkey (by decide)
    · unfold Extra.licenses at hmem
      obtain ⟨pl, hpl, hjoined⟩ := List.mem_flatMap.mp hmem
      obtain ⟨l, hfound, rfl⟩ := List.mem_map.mp hjoined
      obtain ⟨hl, hlid⟩ := List.mem_filter.mp hfound
      exact ⟨pl, hpl, hid, l, hl, eq_of_beq hlid⟩
    · rw [htype] at hkey
      exact absurd hkey (by decide)
  · intro ⟨pl, hpl, hid, l, hl, hlid⟩
    refine ⟨⟨pl.packageID, "License", l.name, ""⟩, ?_, hid, rfl⟩
    have hmem : (⟨pl.packageID, "License", l.name, ""⟩ : Extra) ∈ Extra.licenses db :=
      List.mem_flatMap.mpr ⟨pl, hpl,
        List.mem_map_of_mem (List.mem_filter.mpr ⟨hl, beq_iff_eq.mpr hlid⟩)⟩
    unfold subqueries
    simp [hmem]

theorem keywords_ne_nil_iff (h : Catalogue cfg db) {p : Package} (hp : p ∈ db.packages) :
    listAt (subqueries cfg db) p.id "Keywords" ≠ [] ↔ hasKeyword db p = true := by
  rw [listAt_ne_nil_iff, hasKeyword, List.any_eq_true]
  simp only [beq_iff_eq]
  constructor
  · intro ⟨r, hr, hid, htype⟩
    rcases mem_subqueries hr with hkey | ⟨-, hkey⟩ | ⟨hmem, -⟩
    · rw [htype] at hkey
      exact absurd hkey (by decide)
    · rw [htype] at hkey
      exact absurd hkey (by decide)
    · unfold Extra.keywords at hmem
      obtain ⟨k, hk, hjoined⟩ := List.mem_flatMap.mp hmem
      obtain ⟨q, hfound, rfl⟩ := List.mem_map.mp hjoined
      obtain ⟨hq, hbase⟩ := List.mem_filter.mp hfound
      refine ⟨k, hk, ?_⟩
      rw [← eq_of_beq hbase, List.inj_on_of_nodup_map h.packages hq hp hid]
  · intro ⟨k, hk, hbase⟩
    refine ⟨⟨p.id, "Keywords", k.keyword, ""⟩, ?_, rfl, rfl⟩
    have hmem : (⟨p.id, "Keywords", k.keyword, ""⟩ : Extra) ∈ Extra.keywords db :=
      List.mem_flatMap.mpr ⟨k, hk, List.mem_map_of_mem (f := fun p : Package =>
        (⟨p.id, "Keywords", k.keyword, ""⟩ : Extra))
        (List.mem_filter.mpr ⟨hp, beq_iff_eq.mpr hbase.symm⟩)⟩
    unfold subqueries
    simp [hmem]

/-! ### Two records -/

/-- The same value; a list may be in another order. -/
def SameValue : Option Value → Option Value → Prop
  | some (.list items), some (.list items') => items.Perm items'
  | value, value' => value = value'

/-- The same keys apart from `PendingRequests`, with the same values apart from `Popularity`. -/
def Agree (archive info : Data) : Prop :=
  ∀ key, key ≠ "PendingRequests" →
    (archive key).isSome = (info key).isSome ∧
      (key ≠ "Popularity" → SameValue (archive key) (info key))

theorem sameValue_refl (value : Option Value) : SameValue value value := by
  cases value with
  | none => rfl
  | some value =>
      cases value with
      | list items => exact List.Perm.refl items
      | _ => rfl

section

variable (snapshotURI : String → String) (archivePopularity : Result → Value)
  (rpcPopularity : Entity → Value) (api : Api)

/-- The keys of a record besides the lists. -/
def baseKeys : List String :=
  ["ID", "Name", "PackageBaseID", "PackageBase", "Version", "Description", "URL", "URLPath",
    "NumVotes", "Popularity", "OutOfDate", "Maintainer", "Submitter", "FirstSubmitted",
    "LastModified"]

/-- The dictionary of a package before the lists are put in. -/
def archiveBase (result : Result) : Data :=
  Dict.update (asDict archivePopularity result)
    (Dict.ofList [("URLPath", .str (snapshotURI result.name))])

def infoBase (package : Entity) : Data := (getJsonData api package).toData (rpcPopularity package)

theorem item_apply (rows : List Extra) (result : Result) (key : String) :
    item snapshotURI archivePopularity (getExtendedDict rows) result key =
      if listAt rows result.id key = [] then archiveBase snapshotURI archivePopularity result key
      else some (.list (listAt rows result.id key)) := by
  have hlist := collect_listAt rows result.id key
  rw [← getExtendedDict_eq] at hlist
  show ((getExtendedDict rows (result.id, key)).map Value.list).or _ = _
  rw [hlist]
  split_ifs <;> rfl

theorem info_apply {ids : List Nat} (rows : List Extra) (package : Entity) {key : String}
    (hkey : key ≠ "PendingRequests") :
    getInfoJsonData api rpcPopularity (extraInfo db ids rows) package key =
      if listAt rows package.id key = [] then
        ((if key = "License" ∨ key = "Keywords" then some (.list []) else none).or
          (infoBase rpcPopularity api package key))
      else some (.list (listAt rows package.id key)) := by
  have hlist : extraInfo db ids rows package.id key =
      if listAt rows package.id key = [] then none
      else some (.list (listAt rows package.id key)) := by
    rw [extraInfo, if_neg (fun hpending => hkey hpending.1)]
    exact collect_listAt rows package.id key
  have hdefault : Dict.ofList [("License", Value.list []), ("Keywords", .list []),
      ("PendingRequests", .int 0)] key =
        if key = "License" ∨ key = "Keywords" then some (.list []) else none := by
    unfold Dict.ofList
    by_cases hlicense : key = "License"
    · simp [hlicense]
    by_cases hkeywords : key = "Keywords"
    · simp [hkeywords]
    simp [Ne.symm hlicense, Ne.symm hkeywords, Ne.symm hkey, hlicense, hkeywords]
  show (extraInfo db ids rows package.id key).or ((Dict.ofList _ key).or _) = _
  rw [hlist, hdefault]
  by_cases hnil : listAt rows package.id key = []
  · rw [if_pos hnil, if_pos hnil, Option.none_or]
    rfl
  · rw [if_neg hnil, if_neg hnil, Option.some_or]

/-- What the archive selects of a package. -/
def resultOf (db : Db) (p : Package) : Result where
  id := p.id
  name := p.name
  packageBaseID := (baseOf db p).id
  packageBase := (baseOf db p).name
  version := p.version
  description := p.description
  url := p.url
  numVotes := (baseOf db p).numVotes
  outOfDate := (baseOf db p).outOfDateTS
  maintainer := (accountOf db (baseOf db p).maintainerUID).map (·.username)
  submitter := (accountOf db (baseOf db p).submitterUID).map (·.username)
  firstSubmitted := (baseOf db p).submittedTS
  lastModified := (baseOf db p).modifiedTS

theorem query_eq (h : Catalogue cfg db) : query db = db.packages.map (resultOf db) := by
  unfold query
  dsimp only
  rw [Query.outer_eq_map fun r _ => h.filter_accounts r.base.submitterUID,
    Query.outer_eq_map fun r _ => h.filter_accounts r.base.maintainerUID, h.packages_eq]
  simp only [List.map_map]
  rfl

theorem archiveBase_eq_none (result : Result) {key : String} (hkey : key ∉ baseKeys) :
    archiveBase snapshotURI archivePopularity result key = none := by
  simp only [baseKeys, List.mem_cons, List.not_mem_nil, or_false, not_or] at hkey
  unfold archiveBase asDict Dict.update
  rw [Dict.ofList_eq_none, Dict.ofList_eq_none, Option.none_or]
  · simp [hkey]
  · simp [hkey]

theorem infoBase_eq_none (package : Entity) {key : String} (hkey : key ∉ baseKeys) :
    infoBase rpcPopularity api package key = none := by
  simp only [baseKeys, List.mem_cons, List.not_mem_nil, or_false, not_or] at hkey
  unfold infoBase PackageData.toData Dict.update
  rw [Dict.ofList_eq_none, Dict.ofList_eq_none, Option.none_or]
  · simp [hkey]
  · simp [getJsonData, hkey]

/-- Outside the lists the records differ in two places. -/
theorem base_eq (h : Catalogue cfg db) {p : Package} (hp : p ∈ db.packages) {key : String}
    (hurl : key ≠ "URLPath") (hpopularity : key ≠ "Popularity") :
    archiveBase snapshotURI archivePopularity (resultOf db p) key =
      infoBase rpcPopularity api (entityOf db p) key := by
  have hid := h.baseOf_id hp
  by_cases hkey : key ∈ baseKeys
  · simp only [baseKeys, List.mem_cons, List.not_mem_nil, or_false] at hkey
    rcases hkey with rfl | rfl | rfl | rfl | rfl | rfl | rfl | rfl | rfl | rfl | rfl | rfl | rfl |
      rfl | rfl
    case inr.inr.inl =>
      show some (Value.int (baseOf db p).id) = some (.int p.packageBaseID)
      rw [hid]
    all_goals first | rfl | exact absurd rfl hurl | exact absurd rfl hpopularity
  · rw [archiveBase_eq_none _ _ _ hkey, infoBase_eq_none _ _ _ hkey]

theorem base_isSome (p : Package) (key : String) :
    (archiveBase snapshotURI archivePopularity (resultOf db p) key).isSome =
      (infoBase rpcPopularity api (entityOf db p) key).isSome := by
  by_cases hkey : key ∈ baseKeys
  · simp only [baseKeys, List.mem_cons, List.not_mem_nil, or_false] at hkey
    rcases hkey with rfl | rfl | rfl | rfl | rfl | rfl | rfl | rfl | rfl | rfl | rfl | rfl | rfl |
      rfl | rfl <;> rfl
  · rw [archiveBase_eq_none _ _ _ hkey, infoBase_eq_none _ _ _ hkey]

/-- The two records of a package, from the rows of a package that are the same. -/
theorem agree_iff (h : Catalogue cfg db) {p : Package} (hp : p ∈ db.packages) {ids : List Nat}
    {rows rows' : List Extra} (hrows : rows.Perm (subqueries cfg db))
    (hsame : ∀ key, (listAt rows' p.id key).Perm (listAt (subqueries cfg db) p.id key)) :
    Agree (item snapshotURI archivePopularity (getExtendedDict rows) (resultOf db p))
        (getInfoJsonData api rpcPopularity (extraInfo db ids rows') (entityOf db p)) ↔
      snapshotURI p.name = api.snapshotURI (baseOf db p).name ∧ hasLicense db p = true ∧
        hasKeyword db p = true := by
  have harchive : ∀ key,
      item snapshotURI archivePopularity (getExtendedDict rows) (resultOf db p) key =
        if listAt rows p.id key = [] then
          archiveBase snapshotURI archivePopularity (resultOf db p) key
        else some (.list (listAt rows p.id key)) :=
    item_apply snapshotURI archivePopularity rows (resultOf db p)
  have hinfo : ∀ key, key ≠ "PendingRequests" →
      getInfoJsonData api rpcPopularity (extraInfo db ids rows') (entityOf db p) key =
        if listAt rows' p.id key = [] then
          ((if key = "License" ∨ key = "Keywords" then some (.list []) else none).or
            (infoBase rpcPopularity api (entityOf db p) key))
        else some (.list (listAt rows' p.id key)) :=
    fun key hkey => info_apply rpcPopularity api rows' (entityOf db p) hkey
  have hlists : ∀ key, (listAt rows p.id key).Perm (listAt rows' p.id key) :=
    fun key => (listAt_perm hrows p.id key).trans (hsame key).symm
  have hnil : ∀ key, listAt rows p.id key = [] ↔ listAt (subqueries cfg db) p.id key = [] :=
    fun key => nil_iff_of_perm (listAt_perm hrows p.id key)
  have hnil' : ∀ key, listAt rows' p.id key = [] ↔ listAt rows p.id key = [] :=
    fun key => nil_iff_of_perm (hlists key).symm
  have hbaseName : listAt rows p.id "URLPath" = [] :=
    (hnil _).mpr (listAt_eq_nil (by decide))
  rw [← licenses_ne_nil_iff cfg, ← keywords_ne_nil_iff h hp, Ne, Ne, ← hnil, ← hnil]
  constructor
  · intro hagree
    have hdefault : ∀ key, key = "License" ∨ key = "Keywords" → listAt rows p.id key ≠ [] := by
      intro key hkey heq
      have hpending : key ≠ "PendingRequests" := by
        rcases hkey with rfl | rfl <;> decide
      have hnone : archiveBase snapshotURI archivePopularity (resultOf db p) key = none := by
        apply archiveBase_eq_none
        rcases hkey with rfl | rfl <;> decide
      have hkeys := (hagree key hpending).1
      rw [harchive, hinfo key hpending, if_pos heq, if_pos ((hnil' key).mpr heq), if_pos hkey,
        hnone, Option.some_or] at hkeys
      exact Bool.false_ne_true hkeys
    refine ⟨?_, hdefault _ (.inl rfl), hdefault _ (.inr rfl)⟩
    have hvalue := (hagree "URLPath" (by decide)).2 (by decide)
    rw [harchive, hinfo _ (by decide), if_pos hbaseName, if_pos ((hnil' _).mpr hbaseName)] at hvalue
    have hstr : some (Value.str (snapshotURI p.name)) =
        some (.str (api.snapshotURI (baseOf db p).name)) := hvalue
    rwa [Option.some.injEq, Value.str.injEq] at hstr
  · intro ⟨hurl, hlicense, hkeyword⟩ key hpending
    rw [harchive, hinfo key hpending]
    by_cases heq : listAt rows p.id key = []
    · have hkey : ¬ (key = "License" ∨ key = "Keywords") := by
        rintro (rfl | rfl)
        · exact hlicense heq
        · exact hkeyword heq
      rw [if_pos heq, if_pos ((hnil' key).mpr heq), if_neg hkey, Option.none_or]
      refine ⟨base_isSome .., fun hpopularity => ?_⟩
      by_cases hpath : key = "URLPath"
      · subst hpath
        show some (Value.str (snapshotURI p.name)) =
          some (.str (api.snapshotURI (baseOf db p).name))
        rw [hurl]
      · rw [base_eq snapshotURI archivePopularity rpcPopularity api h hp hpath hpopularity]
        exact sameValue_refl _
    · rw [if_neg heq, if_neg (mt (hnil' key).mp heq)]
      exact ⟨rfl, fun _ => hlists key⟩

end

/-! ### The record of a package -/

/-- The record of the package with that `ID`. -/
def isRecordOf (id : Nat) (data : Data) : Bool := data "ID" = some (.int id)

theorem isRecordOf_item (snapshotURI : String → String) (popularity : Result → Value)
    {rows : List Extra} (hrows : rows.Perm (subqueries cfg db)) (result : Result) (id : Nat) :
    isRecordOf id (item snapshotURI popularity (getExtendedDict rows) result) = (result.id == id) := by
  have hnil : listAt rows result.id "ID" = [] :=
    (nil_iff_of_perm (listAt_perm hrows result.id "ID")).mpr (listAt_eq_nil (by decide))
  have hid : archiveBase snapshotURI popularity result "ID" = some (.int result.id) := rfl
  rw [isRecordOf, item_apply, if_pos hnil, hid, Bool.eq_iff_iff]
  simp

theorem isRecordOf_info (api : Api) (popularity : Entity → Value) {ids : List Nat}
    {rows : List Extra} {package : Entity} (hnil : listAt rows package.id "ID" = []) (id : Nat) :
    isRecordOf id (getInfoJsonData api popularity (extraInfo db ids rows) package) =
      (package.id == id) := by
  have hid : infoBase popularity api package "ID" = some (.int package.id) := rfl
  rw [isRecordOf, info_apply popularity api rows package (by decide), if_pos hnil,
    if_neg (by decide), Option.none_or, hid, Bool.eq_iff_iff]
  simp

theorem listAt_rpc (h : Catalogue cfg db) (hc : Contents cfg db) {ids : List Nat} {id : Nat}
    (hid : id ∈ ids) {rows : List Extra} (hrows : rows.Perm (Rpc.subqueries cfg db ids))
    (key : String) : (listAt rows id key).Perm (listAt (subqueries cfg db) id key) := by
  refine (listAt_perm hrows id key).trans (.of_eq ?_)
  rw [← listAt_filter, filter_subqueries h hc hid, listAt_filter]

/-- Of packages in any order, the one with the `ID` of a package. -/
theorem filter_id_eq_singleton {β : Type} (h : Catalogue cfg db) {found : List β} (id : β → Nat)
    {of : Package → β} (hof : ∀ p, id (of p) = p.id) {P : Package → Bool}
    (hfound : found.Perm ((db.packages.filter P).map of)) {p : Package} (hp : p ∈ db.packages)
    (hP : P p = true) : found.filter (id · == p.id) = [of p] := by
  have hnodup : (((db.packages.filter P).map of).map id).Nodup := by
    rw [List.map_map, show id ∘ of = (·.id) from funext hof]
    exact h.packages.sublist ((List.filter_sublist ..).map _)
  have hone := Query.filter_key_eq_singleton hnodup
    (List.mem_map_of_mem (List.mem_filter.mpr ⟨hp, hP⟩))
  rw [hof p] at hone
  exact List.perm_singleton.mp (hone ▸ hfound.filter _)

/-- The packages that a request names. -/
def asked (api : Api) (db : Db) (args : List String) : List Entity :=
  entities db
    ((Search.RPCSearch.init db).filter fun r => args.any (api.dbms.cfg.sameName r.package.name)).query

theorem asked_perm {api : Api} (h : Catalogue api.dbms.cfg db) (args : List String) :
    (asked api db args).Perm ((db.packages.filter fun q =>
      args.any (api.dbms.cfg.sameName q.name)).map (entityOf db)) := by
  have hgives := (gives_init h).filter
    (q := fun r => args.any (api.dbms.cfg.sameName r.package.name))
    (Q := fun q => args.any (api.dbms.cfg.sameName q.name)) fun _ _ => rfl
  exact (hgives.congr fun _ _ => Bool.true_and _).perm_entities h

theorem handleMultiinfoType_eq (api : Api) (popularity : Entity → Value)
    (returned : List Extra → List Extra) (db : Db) {args : List String} (hargs : args ≠ [])
    (hle : (asked api db args).length ≤ api.maxRpcResults) :
    handleMultiinfoType api popularity returned db args =
      .ok ((asked api db args).map (getInfoJsonData api popularity
        (extraInfo db ((asked api db args).map (·.id))
          (returned (Rpc.subqueries api.dbms.cfg db ((asked api db args).map (·.id))))))) := by
  have htake : (asked api db args).take (api.maxRpcResults + 1) = asked api db args :=
    List.take_of_length_le (by omega)
  unfold handleMultiinfoType
  rw [if_neg hargs]
  unfold asked at htake hle ⊢
  simp only [htake]
  rw [if_neg (by omega)]

/-- The record of the RPC. -/
theorem filter_records (api : Api) (popularity : Entity → Value) (h : Catalogue api.dbms.cfg db)
    (hc : Contents api.dbms.cfg db) {args : List String} {p : Package} (hp : p ∈ db.packages)
    (hasked : args.any (api.dbms.cfg.sameName p.name) = true) {rows : List Extra}
    (hrows : rows.Perm (Rpc.subqueries api.dbms.cfg db ((asked api db args).map (·.id)))) :
    ((asked api db args).map (getInfoJsonData api popularity
      (extraInfo db ((asked api db args).map (·.id)) rows))).filter (isRecordOf p.id) =
        [getInfoJsonData api popularity (extraInfo db ((asked api db args).map (·.id)) rows)
          (entityOf db p)] := by
  have hrecord : ∀ e ∈ asked api db args, (isRecordOf p.id ∘ getInfoJsonData api popularity
      (extraInfo db ((asked api db args).map (·.id)) rows)) e = (e.id == p.id) := by
    intro e he
    have hid : e.id ∈ (asked api db args).map (·.id) := List.mem_map_of_mem he
    have hnil : listAt rows e.id "ID" = [] :=
      (nil_iff_of_perm (listAt_rpc h hc hid hrows "ID")).mpr (listAt_eq_nil (by decide))
    rw [Function.comp_apply, isRecordOf_info api popularity hnil]
  rw [List.filter_map, List.filter_congr hrecord,
    filter_id_eq_singleton h Entity.id (fun _ => rfl) (asked_perm h args) hp hasked,
    List.map_singleton]

/-- The record of the archive. -/
theorem filter_metaExt (h : Catalogue cfg db) (snapshotURI : String → String)
    (popularity : Result → Value) {p : Package} (hp : p ∈ db.packages) {rows : List Extra}
    (hrows : rows.Perm (subqueries cfg db)) {results : List Result}
    (hresults : results.Perm (query db)) :
    (metaExt snapshotURI popularity rows results).filter (isRecordOf p.id) =
      [item snapshotURI popularity (getExtendedDict rows) (resultOf db p)] := by
  have hquery : results.Perm ((db.packages.filter fun _ => true).map (resultOf db)) := by
    rw [List.filter_true, ← query_eq h]
    exact hresults
  have hrecord : ∀ result ∈ results, (isRecordOf p.id ∘
      item snapshotURI popularity (getExtendedDict rows)) result = (result.id == p.id) :=
    fun result _ => isRecordOf_item snapshotURI popularity hrows result p.id
  unfold metaExt
  rw [List.filter_map, List.filter_congr hrecord,
    filter_id_eq_singleton h Result.id (fun _ => rfl) hquery hp rfl, List.map_singleton]

/-- The archive and the RPC have a record each of a package that is asked for, and the two agree
just if the package has a license and a keyword and its snapshot is named as that of its base. -/
theorem metaExt_agree_iff (api : Api) (rpcPopularity : Entity → Value)
    (archivePopularity : Result → Value) (returned : List Extra → List Extra) (db : Db)
    (args : List String) (p : Package) (rows : List Extra) (results : List Result)
    (h : Catalogue api.dbms.cfg db) (hc : Contents api.dbms.cfg db) (hp : p ∈ db.packages)
    (hasked : args.any (api.dbms.cfg.sameName p.name) = true)
    (hmax : (db.packages.filter fun q => args.any (api.dbms.cfg.sameName q.name)).length ≤
      api.maxRpcResults)
    (hreturned : ∀ rows, (returned rows).Perm rows)
    (hrows : rows.Perm (subqueries api.dbms.cfg db)) (hresults : results.Perm (query db)) :
    ∃ records info archive,
      handleMultiinfoType api rpcPopularity returned db args = .ok records ∧
      records.filter (isRecordOf p.id) = [info] ∧
      (metaExt api.snapshotURI archivePopularity rows results).filter (isRecordOf p.id) =
        [archive] ∧
      (Agree archive info ↔
        api.snapshotURI p.name = api.snapshotURI (baseOf db p).name ∧ hasLicense db p = true ∧
          hasKeyword db p = true) := by
  have hid : p.id ∈ (asked api db args).map (·.id) := by
    have hmem : entityOf db p ∈ asked api db args :=
      (asked_perm h args).mem_iff.mpr (List.mem_map_of_mem (List.mem_filter.mpr ⟨hp, hasked⟩))
    exact List.mem_map_of_mem (f := (·.id)) hmem
  have hargs : args ≠ [] := by
    rintro rfl
    exact Bool.false_ne_true hasked
  have hle : (asked api db args).length ≤ api.maxRpcResults := by
    rw [(asked_perm h args).length_eq, List.length_map]
    exact hmax
  refine ⟨_, _, _, handleMultiinfoType_eq api rpcPopularity returned db hargs hle,
    filter_records api rpcPopularity h hc hp hasked (hreturned _),
    filter_metaExt h api.snapshotURI archivePopularity hp hrows hresults, ?_⟩
  exact agree_iff api.snapshotURI archivePopularity rpcPopularity api h hp hrows fun key =>
    listAt_rpc h hc hid (hreturned _) key

/-! ### A split base -/

/-- `foo` has a license and the base a keyword; `foo-docs` has no license. -/
def archived : Db :=
  { smallCatalogue with
    licenses := [{ id := 7, name := "GPL" }]
    packageLicenses := [{ packageID := 5, licenseID := 7 }]
    packageKeywords := [{ packageBaseID := 4, keyword := "docs" }] }

theorem archived_catalogue : Catalogue siteConfig archived where
  packages := by decide
  packageNames := by decide
  packageBases := by decide
  bases := by decide
  baseNames := by decide
  users := by decide
  userIDs := by decide
  userNames := by decide
  submitters := by decide
  comaintainers := by decide
  votes := by decide
  notifications := by decide

theorem archived_contents : Contents siteConfig archived where
  packageGroups := by decide
  groups := by decide
  groupNames := by decide
  packageLicenses := by decide
  licenses := by decide
  licenseNames := by decide
  packageKeywords := by decide

theorem metaExt_agree_iff_foo :
    ∃ records info archive,
      handleMultiinfoType plainApi (fun _ => .int 0) (fun rows => rows) archived ["foo"] =
        .ok records ∧
      records.filter (isRecordOf 5) = [info] ∧
      (metaExt plainApi.snapshotURI (fun _ => .float "0.0") (subqueries siteConfig archived)
        (query archived)).filter (isRecordOf 5) = [archive] ∧
      (Agree archive info ↔
        plainApi.snapshotURI "foo" =
            plainApi.snapshotURI (baseOf archived (smallPackage 5 "foo")).name ∧
          hasLicense archived (smallPackage 5 "foo") = true ∧
          hasKeyword archived (smallPackage 5 "foo") = true) :=
  metaExt_agree_iff plainApi (fun _ => .int 0) (fun _ => .float "0.0") (fun rows => rows) archived
    ["foo"] (smallPackage 5 "foo") (subqueries siteConfig archived) (query archived)
    archived_catalogue archived_contents (by decide) (by decide) (by decide)
    (fun rows => .refl rows) (.refl _) (.refl _)

theorem not_agree :
    (metaExt plainApi.snapshotURI (fun _ => .float "0.0") (subqueries siteConfig archived)
        (query archived)).map (fun record => (record "Name", record "URLPath", record "License")) =
      [(some (.str "foo"), some (.str "/cgit/aur.git/snapshot/foo.tar.gz"), some (.list ["GPL"])),
        (some (.str "foo-docs"), some (.str "/cgit/aur.git/snapshot/foo-docs.tar.gz"), none)] ∧
    (handleMultiinfoType plainApi (fun _ => .int 0) (fun rows => rows) archived
        ["foo", "foo-docs"]).toOption.map (fun records => records.map fun record =>
          (record "Name", record "URLPath", record "License")) =
      some [
        (some (.str "foo"), some (.str "/cgit/aur.git/snapshot/foo.tar.gz"), some (.list ["GPL"])),
        (some (.str "foo-docs"), some (.str "/cgit/aur.git/snapshot/foo.tar.gz"),
          some (.list []))] :=
  ⟨by decide, by decide⟩

end Aurweb.Mkpkglists
