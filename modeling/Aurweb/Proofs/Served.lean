/-
From a push to the answer of the RPC.

What a push stores is shown table by table (`Pushed`), and what `type=info` tells is shown query by
query; here the two meet.  The entries of a package under a key of its record are those of one of
the subqueries (`listAt_subqueries`), and they are the pushed ones, with entries that the database
takes for equal told once (`told`).  The record of a package of another base is what it was,
however the push ends.
-/
import Aurweb.Proofs.Intact
import Aurweb.Proofs.MetadataArchive
import Aurweb.Proofs.ParseDep

namespace Aurweb.Served

open GitUpdate (Pushed Holds PackageData Stocked Framed dependsOf relationsOf licensesOf groupsOf)
open GitArchive.Metadata (listAt_append listAt_of_types info_sameValue)
open GitUpdateLegacy (typeMapping_dependencyTypeName_inj)
open Mkpkglists (listAt listAt_perm listAt_filter entry asked asked_perm info_apply infoBase
  SameValue mem_distinct typeMapping_dependency typeMapping_relation filter_distinct)
open Rpc (Api Data Entity Extra Value entityOf typeMapping dependencyTypeName relationTypeName
  handleMultiinfoType getInfoJsonData extraInfo)
open Search (Catalogue baseOf)

/-! ### What is told of a pushed package -/

/-- `DISTINCT` names and conditions, as they are told. -/
def told (cfg : Config) (entries : List (String × String)) : List String :=
  (Query.groupBy (fun e => (cfg.collate e.1, cfg.collate e.2)) entries).map fun e =>
    if e.2 ≠ "" then e.1 ++ e.2 else e.1

/-- The list that a record has under a key; a list without items is left out. -/
def itemsAt (info : Data) (key : String) : List String :=
  match info key with
  | some (.list items) => items
  | _ => []

/-- The dependencies of one type, over all architectures. -/
def dependsAs (type : DependencyType) (d : PackageData) : List (String × String) :=
  (d.depends.filter (·.1 = type)).map fun dep => (dep.2.name, dep.2.cond)

def relationsAs (type : RelationType) (d : PackageData) : List (String × String) :=
  (d.relations.filter (·.1 = type)).map fun rel => (rel.2.name, rel.2.cond)

/-- Names, of which some may be stored in the spelling of an earlier push. -/
def NamesTold (cfg : Config) (names items : List String) : Prop :=
  ∃ stored, List.Forall₂ (fun stored name => cfg.sameName stored name = true) stored names ∧
    items.Perm (told cfg (stored.map fun name => (name, "")))

/-- The record tells what was pushed.  The items of a list are in the order of the database. -/
structure Tells (cfg : Config) (pkgbase : String) (d : PackageData) (info : Data) : Prop where
  name : info "Name" = some (.str d.name)
  base : ∃ name, cfg.sameName name pkgbase = true ∧ info "PackageBase" = some (.str name)
  version : ∃ version, d.version = .ok version ∧ info "Version" = some (.str version)
  description : info "Description" = some (.ofStr d.description)
  url : info "URL" = some (.ofStr d.url)
  depends : ∀ type, (itemsAt info (typeMapping (dependencyTypeName type))).Perm
    (told cfg (dependsAs type d))
  relations : ∀ type, (itemsAt info (typeMapping (relationTypeName type))).Perm
    (told cfg (relationsAs type d))
  licenses : NamesTold cfg d.licenses (itemsAt info "License")
  groups : NamesTold cfg d.groups (itemsAt info "Groups")

section

variable {cfg : Config} {db : Db}

/-! ### One key, one subquery -/

theorem listAt_distinct (type : String) {rows : List Extra} {id : Nat} {key : String}
    {entries : List (String × String)}
    (h : (rows.filter fun r => decide ((r.id, typeMapping r.type) = (id, key))) =
      entries.map fun e => ⟨id, type, e.1, e.2⟩) :
    listAt (Extra.distinct cfg rows) id key = told cfg entries := by
  have hfilter : ((Extra.distinct cfg rows).filter fun r =>
      decide ((r.id, typeMapping r.type) = (id, key))) =
        (Query.groupBy (fun e => (cfg.collate e.1, cfg.collate e.2)) entries).map
          fun e => ⟨id, type, e.1, e.2⟩ := by
    unfold Extra.distinct
    rw [Query.filter_groupBy _ rows, h, Query.groupBy_map]
    · congr 1
      refine Query.groupBy_congr (fun e e' => ?_) entries
      simp [Extra.columns]
    · intro r r' heq
      simp only [Extra.columns, Prod.mk.injEq] at heq
      rw [heq.1, heq.2.1]
  unfold listAt Dict.valuesAt
  rw [List.filter_map]
  show (((Extra.distinct cfg rows).filter fun r =>
    decide ((r.id, typeMapping r.type) = (id, key))).map entry).map (·.2) = _
  rw [hfilter, List.map_map, List.map_map]
  rfl

/-- The rows of one subquery of those that are asked for. -/
def among (ids : List Nat) (rows : List Extra) : List Extra := rows.filter (ids.contains ·.id)

/-- The union, subquery by subquery. -/
theorem listAt_subqueries (ids : List Nat) (id : Nat) (key : String) :
    listAt (Rpc.subqueries cfg db ids) id key =
      listAt (Extra.distinct cfg (among ids (Extra.dependencies db))) id key ++
      listAt (Extra.distinct cfg (among ids (Extra.relations db))) id key ++
      listAt (Extra.distinct cfg (among ids (Extra.groups db))) id key ++
      listAt (Extra.distinct cfg (among ids (Extra.licenses db))) id key ++
      listAt (Extra.distinct cfg (among ids (Extra.keywords db))) id key ++
      listAt (Extra.distinct cfg (Extra.comaintainers db)) id key := by
  unfold Rpc.subqueries
  simp only [listAt_append]
  rfl

/-! A subquery has nothing for the keys of the others. -/

section

variable (ids : List Nat) (id : Nat) {key : String}

theorem dependencies_eq_nil (h : key ∉ ["Depends", "MakeDepends", "CheckDepends", "OptDepends"]) :
    listAt (Extra.distinct cfg (among ids (Extra.dependencies db))) id key = [] := by
  refine listAt_of_types (fun r hr htype => h ?_) id
  obtain ⟨dep, -, rfl⟩ := List.mem_map.mp (List.mem_of_mem_filter (mem_distinct hr))
  rw [← htype]
  exact typeMapping_dependency dep.depType

theorem relations_eq_nil (h : key ∉ ["Conflicts", "Provides", "Replaces"]) :
    listAt (Extra.distinct cfg (among ids (Extra.relations db))) id key = [] := by
  refine listAt_of_types (fun r hr htype => h ?_) id
  obtain ⟨rel, -, rfl⟩ := List.mem_map.mp (List.mem_of_mem_filter (mem_distinct hr))
  rw [← htype]
  exact typeMapping_relation rel.relType

theorem groups_eq_nil (h : key ≠ "Groups") :
    listAt (Extra.distinct cfg (among ids (Extra.groups db))) id key = [] := by
  refine listAt_of_types (fun r hr htype => h ?_) id
  obtain ⟨pg, -, hjoined⟩ := List.mem_flatMap.mp (List.mem_of_mem_filter (mem_distinct hr))
  obtain ⟨g, -, rfl⟩ := List.mem_map.mp hjoined
  exact htype.symm

theorem licenses_eq_nil (h : key ≠ "License") :
    listAt (Extra.distinct cfg (among ids (Extra.licenses db))) id key = [] := by
  refine listAt_of_types (fun r hr htype => h ?_) id
  obtain ⟨pl, -, hjoined⟩ := List.mem_flatMap.mp (List.mem_of_mem_filter (mem_distinct hr))
  obtain ⟨l, -, rfl⟩ := List.mem_map.mp hjoined
  exact htype.symm

theorem keywords_eq_nil (h : key ≠ "Keywords") :
    listAt (Extra.distinct cfg (among ids (Extra.keywords db))) id key = [] := by
  refine listAt_of_types (fun r hr htype => h ?_) id
  obtain ⟨k, -, hjoined⟩ := List.mem_flatMap.mp (List.mem_of_mem_filter (mem_distinct hr))
  obtain ⟨p, -, rfl⟩ := List.mem_map.mp hjoined
  exact htype.symm

theorem comaintainers_eq_nil (h : key ≠ "CoMaintainers") :
    listAt (Extra.distinct cfg (Extra.comaintainers db)) id key = [] := by
  refine listAt_of_types (fun r hr htype => h ?_) id
  obtain ⟨c, -, hu⟩ := List.mem_flatMap.mp (mem_distinct hr)
  obtain ⟨u, -, hjoined⟩ := List.mem_flatMap.mp hu
  obtain ⟨p, -, rfl⟩ := List.mem_map.mp hjoined
  exact htype.symm

end

/-! ### What is stored and what is told -/

theorem filter_among {ids : List Nat} {id : Nat} (hid : id ∈ ids) (key : String)
    (rows : List Extra) :
    ((among ids rows).filter fun r => decide ((r.id, typeMapping r.type) = (id, key))) =
      rows.filter fun r => decide ((r.id, typeMapping r.type) = (id, key)) := by
  unfold among
  rw [List.filter_filter]
  refine List.filter_congr fun r _ => ?_
  by_cases hr : r.id = id
  · simp [hr, hid]
  · simp [hr]

theorem typeMapping_relationTypeName_inj {t u : RelationType}
    (h : typeMapping (relationTypeName t) = typeMapping (relationTypeName u)) : t = u := by
  cases t <;> cases u <;> first | rfl | exact absurd h (by decide)

/-- The rows of one package and type in a table that has both. -/
theorem filter_typed {ρ τ : Type} [DecidableEq τ] {typeName : τ → String}
    (hinj : ∀ {t u}, typeMapping (typeName t) = typeMapping (typeName u) → t = u)
    (package : ρ → Nat) (type : ρ → τ) (name cond : ρ → String) (rows : List ρ) (id : Nat) (t : τ) :
    ((rows.map fun r => (⟨package r, typeName (type r), name r, cond r⟩ : Extra)).filter fun r =>
      decide ((r.id, typeMapping r.type) = (id, typeMapping (typeName t)))) =
      ((rows.filter fun r => decide (type r = t) && package r == id).map fun r =>
        (name r, cond r)).map fun e => ⟨id, typeName t, e.1, e.2⟩ := by
  have hfilter : ∀ r ∈ rows, decide ((package r, typeMapping (typeName (type r))) =
      (id, typeMapping (typeName t))) = (decide (type r = t) && package r == id) := by
    intro r _
    have hsame : (package r, typeMapping (typeName (type r))) = (id, typeMapping (typeName t)) ↔
        type r = t ∧ package r = id := by
      rw [Prod.mk.injEq, and_comm]
      exact and_congr_left fun _ => ⟨hinj, fun ht => by rw [ht]⟩
    rw [decide_eq_decide.mpr hsame, Bool.decide_and]
    rfl
  rw [List.filter_map]
  show ((rows.filter fun r => decide ((package r, typeMapping (typeName (type r))) =
    (id, typeMapping (typeName t)))).map _) = _
  rw [List.filter_congr hfilter, List.map_map]
  refine List.map_congr_left fun r hr => ?_
  have hrow := List.of_mem_filter hr
  simp only [Bool.and_eq_true, decide_eq_true_eq, beq_iff_eq] at hrow
  rw [hrow.1, hrow.2]
  rfl

theorem listAt_dependency {ids : List Nat} {id : Nat} (hid : id ∈ ids) (type : DependencyType) :
    listAt (Rpc.subqueries cfg db ids) id (typeMapping (dependencyTypeName type)) =
      told cfg (((dependsOf db id).filter (·.1 = type)).map fun dep =>
        (dep.2.name, dep.2.cond)) := by
  rw [listAt_subqueries, relations_eq_nil, groups_eq_nil, licenses_eq_nil, keywords_eq_nil,
    comaintainers_eq_nil]
  · simp only [List.append_nil]
    refine listAt_distinct (dependencyTypeName type) ?_
    rw [filter_among hid]
    refine (filter_typed typeMapping_dependencyTypeName_inj _ _ _ _ _ id type).trans ?_
    simp only [dependsOf, List.filter_map, List.filter_filter, List.map_map]
    rfl
  all_goals cases type <;> decide

theorem listAt_relation {ids : List Nat} {id : Nat} (hid : id ∈ ids) (type : RelationType) :
    listAt (Rpc.subqueries cfg db ids) id (typeMapping (relationTypeName type)) =
      told cfg (((relationsOf db id).filter (·.1 = type)).map fun rel =>
        (rel.2.name, rel.2.cond)) := by
  rw [listAt_subqueries, dependencies_eq_nil, groups_eq_nil, licenses_eq_nil, keywords_eq_nil,
    comaintainers_eq_nil]
  · simp only [List.append_nil, List.nil_append]
    refine listAt_distinct (relationTypeName type) ?_
    rw [filter_among hid]
    refine (filter_typed typeMapping_relationTypeName_inj _ _ _ _ _ id type).trans ?_
    simp only [relationsOf, List.filter_map, List.filter_filter, List.map_map]
    rfl
  all_goals cases type <;> decide

/-- The names that the rows of one package refer to. -/
theorem filter_named {ρ β : Type} {named : List β} {key : β → Nat} (hnamed : (named.map key).Nodup)
    (package ref : ρ → Nat) (name : β → String) (type : String) (id : Nat) (rows : List ρ) :
    ((rows.flatMap fun r => (named.filter (key · == ref r)).map fun b =>
      (⟨package r, type, name b, ""⟩ : Extra)).filter fun r =>
        decide ((r.id, typeMapping r.type) = (id, typeMapping type))) =
      (((rows.filter (package · == id)).filterMap fun r =>
        (named.find? (key · == ref r)).map name).map fun n => (n, "")).map
          fun e => ⟨id, type, e.1, e.2⟩ := by
  have hone : ∀ r, named.filter (key · == ref r) = (named.find? (key · == ref r)).toList := by
    intro r
    apply Query.filter_eq_toList_find?
    apply Query.pairwise_of_key hnamed
    intro a b ha hb
    exact (eq_of_beq ha).trans (eq_of_beq hb).symm
  induction rows with
  | nil => rfl
  | cons r rows ih =>
      rw [List.flatMap_cons, List.filter_append, ih, hone]
      by_cases hid : package r = id
      · cases hfind : named.find? (key · == ref r) with
        | none => simp [hid, hfind]
        | some b => simp [hid, hfind]
      · cases hfind : named.find? (key · == ref r) with
        | none => simp [hid]
        | some b => simp [hid]

theorem listAt_license (hnamed : (db.licenses.map (·.id)).Nodup) {ids : List Nat} {id : Nat}
    (hid : id ∈ ids) :
    listAt (Rpc.subqueries cfg db ids) id "License" =
      told cfg ((licensesOf db id).map fun name => (name, "")) := by
  rw [listAt_subqueries, dependencies_eq_nil, relations_eq_nil, groups_eq_nil, keywords_eq_nil,
    comaintainers_eq_nil]
  · simp only [List.append_nil, List.nil_append]
    refine listAt_distinct "License" ?_
    rw [filter_among hid]
    exact filter_named hnamed _ _ _ "License" id _
  all_goals decide

theorem listAt_group (hnamed : (db.groups.map (·.id)).Nodup) {ids : List Nat} {id : Nat}
    (hid : id ∈ ids) :
    listAt (Rpc.subqueries cfg db ids) id "Groups" =
      told cfg ((groupsOf db id).map fun name => (name, "")) := by
  rw [listAt_subqueries, dependencies_eq_nil, relations_eq_nil, licenses_eq_nil, keywords_eq_nil,
    comaintainers_eq_nil]
  · simp only [List.append_nil, List.nil_append]
    refine listAt_distinct "Groups" ?_
    rw [filter_among hid]
    exact filter_named hnamed _ _ _ "Groups" id _
  all_goals decide

theorem listAt_column {ids : List Nat} {id : Nat} {key : String}
    (hkey : key ∉ Mkpkglists.listKeys) : listAt (Rpc.subqueries cfg db ids) id key = [] := by
  simp only [Mkpkglists.listKeys, List.mem_cons, List.not_mem_nil, or_false, not_or] at hkey
  rw [listAt_subqueries, dependencies_eq_nil, relations_eq_nil, groups_eq_nil, licenses_eq_nil,
    keywords_eq_nil, comaintainers_eq_nil]
  · rfl
  all_goals simp [hkey]

end

/-! ### The record of one package -/

section

variable {api : Api} {popularity : Entity → Value} {returned : List Extra → List Extra} {db : Db}
  {p : Package}

/-- The record of a package that is asked for alone. -/
def infoOf (api : Api) (popularity : Entity → Value) (returned : List Extra → List Extra) (db : Db)
    (p : Package) : Data :=
  getInfoJsonData api popularity
    (extraInfo db [p.id] (returned (Rpc.subqueries api.dbms.cfg db [p.id]))) (entityOf db p)

theorem handleMultiinfoType_one (h : Catalogue api.dbms.cfg db) (hmax : 1 ≤ api.maxRpcResults)
    (hp : p ∈ db.packages) :
    handleMultiinfoType api popularity returned db [p.name] =
      .ok [infoOf api popularity returned db p] := by
  have hnamed :
      (db.packages.filter fun q => [p.name].any (api.dbms.cfg.sameName q.name)) = [p] := by
    rw [← Query.filter_key_eq_singleton h.packageNames hp]
    refine List.filter_congr fun q _ => ?_
    rw [List.any_cons, List.any_nil, Bool.or_false]
    rfl
  have hone : asked api db [p.name] = [entityOf db p] := by
    have hperm := asked_perm h [p.name]
    rw [hnamed] at hperm
    exact List.perm_singleton.mp hperm
  rw [Mkpkglists.handleMultiinfoType_eq api popularity returned db (by simp)
    (by rw [hone]; exact hmax), hone]
  rfl

theorem itemsAt_info (hreturned : ∀ rows, (returned rows).Perm rows) {key : String}
    (hkey : key ∉ Mkpkglists.baseKeys) (hpending : key ≠ "PendingRequests") :
    (itemsAt (infoOf api popularity returned db p) key).Perm
      (listAt (Rpc.subqueries api.dbms.cfg db [p.id]) p.id key) := by
  refine List.Perm.trans (.of_eq ?_) (listAt_perm (hreturned _) p.id key)
  unfold itemsAt infoOf
  rw [info_apply popularity api _ _ hpending]
  by_cases hnil : listAt (returned (Rpc.subqueries api.dbms.cfg db [p.id])) p.id key = []
  · rw [if_pos (show listAt _ (entityOf db p).id key = [] from hnil),
      Mkpkglists.infoBase_eq_none popularity api _ hkey, Option.or_none, hnil]
    split_ifs <;> rfl
  · rw [if_neg (show listAt _ (entityOf db p).id key ≠ [] from hnil)]
    rfl

theorem info_column (hreturned : ∀ rows, (returned rows).Perm rows) {key : String}
    (hkey : key ∉ Mkpkglists.listKeys) (hpending : key ≠ "PendingRequests") :
    infoOf api popularity returned db p key = infoBase popularity api (entityOf db p) key := by
  have hnil :
      listAt (returned (Rpc.subqueries api.dbms.cfg db [p.id])) (entityOf db p).id key = [] := by
    have hperm := listAt_perm (hreturned (Rpc.subqueries api.dbms.cfg db [p.id])) p.id key
    rw [listAt_column hkey] at hperm
    exact hperm.eq_nil
  have hdefault : ¬(key = "License" ∨ key = "Keywords") := by
    rintro (rfl | rfl)
    · exact hkey (by decide)
    · exact hkey (by decide)
  unfold infoOf
  rw [info_apply popularity api _ _ hpending, if_pos hnil, if_neg hdefault, Option.none_or]

/-! ### A push -/

/-- A package that reads back as it was pushed is told as it was pushed. -/
theorem tells_of_holds (hs : Stocked db) (hreturned : ∀ rows, (returned rows).Perm rows)
    {d : PackageData} (hholds : Holds api.dbms.cfg (GitUpdate.readPackage db p) d) {pkgbase : String}
    (hbase : api.dbms.cfg.sameName (baseOf db p).name pkgbase = true) :
    Tells api.dbms.cfg pkgbase d (infoOf api popularity returned db p) where
  name := by
    rw [info_column hreturned (by decide) (by decide), ← hholds.name]
    rfl
  base := by
    refine ⟨(baseOf db p).name, hbase, ?_⟩
    rw [info_column hreturned (by decide) (by decide)]
    rfl
  version := by
    refine ⟨p.version, hholds.version, ?_⟩
    rw [info_column hreturned (by decide) (by decide)]
    rfl
  description := by
    rw [info_column hreturned (by decide) (by decide), ← hholds.description]
    rfl
  url := by
    rw [info_column hreturned (by decide) (by decide), ← hholds.url]
    rfl
  depends type := by
    refine (itemsAt_info hreturned ?_ ?_).trans (.of_eq ?_)
    · cases type <;> decide
    · cases type <;> decide
    · rw [listAt_dependency (List.mem_singleton_self _), dependsAs, ← hholds.depends]
      rfl
  relations type := by
    refine (itemsAt_info hreturned ?_ ?_).trans (.of_eq ?_)
    · cases type <;> decide
    · cases type <;> decide
    · rw [listAt_relation (List.mem_singleton_self _), relationsAs, ← hholds.relations]
      rfl
  licenses := by
    refine ⟨_, hholds.licenses, (itemsAt_info hreturned (by decide) (by decide)).trans (.of_eq ?_)⟩
    exact listAt_license hs.keyed.licensesNodup (List.mem_singleton_self _)
  groups := by
    refine ⟨_, hholds.groups, (itemsAt_info hreturned (by decide) (by decide)).trans (.of_eq ?_)⟩
    exact listAt_group hs.keyed.groupsNodup (List.mem_singleton_self _)

end

/-! ### A package of another base -/

section

variable {cfg : Config} {db db' : Db} {p : Package} {baseID : Nat}

/-- A table that has nothing to do with the base. -/
theorem table_of_framed {α : Type} (table : Db → α)
    (htable : ∀ db, table (GitUpdate.restOf baseID db) = table db) (h : Framed baseID db db') :
    table db' = table db := by
  rw [← htable db', h.rest, htable]

/-- The package and its base are still there. -/
theorem mem_of_framed (h : Framed baseID db db') (hp : p ∈ db.packages)
    (hother : p.packageBaseID ≠ baseID) : p ∈ db'.packages := by
  have hin : p ∈ db.packages.filter (·.packageBaseID == p.packageBaseID) :=
    List.mem_filter.mpr ⟨hp, beq_self_eq_true _⟩
  rw [← h.packages hother] at hin
  exact (List.mem_filter.mp hin).1

theorem baseOf_of_framed (h : Framed baseID db db') (hdb : Catalogue cfg db)
    (hdb' : Catalogue cfg db') (hp : p ∈ db.packages) (hother : p.packageBaseID ≠ baseID) :
    baseOf db' p = baseOf db p := by
  have hp' := mem_of_framed h hp hother
  have hid : (baseOf db p).id ≠ baseID := by
    rw [hdb.baseOf_id hp]
    exact hother
  have hmem : baseOf db p ∈ db'.packageBases := h.mem_packageBases (hdb.baseOf_mem hp) hid
  refine List.inj_on_of_nodup_map hdb'.bases (hdb'.baseOf_mem hp') hmem ?_
  rw [hdb'.baseOf_id hp', hdb.baseOf_id hp]

theorem entityOf_of_framed (h : Framed baseID db db') (hdb : Catalogue cfg db)
    (hdb' : Catalogue cfg db') (hp : p ∈ db.packages) (hother : p.packageBaseID ≠ baseID) :
    entityOf db' p = entityOf db p := by
  have husers : db'.users = db.users := table_of_framed Db.users (fun _ => rfl) h
  unfold entityOf Search.accountOf
  rw [baseOf_of_framed h hdb hdb' hp hother, husers]

/-- What is found for the rows of one package. -/
theorem filter_links {ρ β : Type} (package : ρ → Nat) (found : ρ → List β) (type : String)
    (name : β → String) (id : Nat) (rows : List ρ) :
    (rows.flatMap fun r => (found r).map fun b =>
      (⟨package r, type, name b, ""⟩ : Extra)).filter (·.id == id) =
      (rows.filter (package · == id)).flatMap fun r => (found r).map fun b =>
        ⟨package r, type, name b, ""⟩ := by
  refine Query.filter_flatMap (fun r e he => ?_) rows
  obtain ⟨b, -, rfl⟩ := List.mem_map.mp he
  rfl

theorem dependencies_of_framed (h : Framed baseID db db')
    (hfree : GitUpdate.ownedBy db baseID p.id = false)
    (hfree' : GitUpdate.ownedBy db' baseID p.id = false) :
    (Extra.dependencies db').filter (·.id == p.id) =
      (Extra.dependencies db).filter (·.id == p.id) := by
  have hrows := GitUpdate.rows_of_rest PackageDependency.packageID hfree hfree'
    (congrArg Db.packageDepends h.rest)
  unfold Extra.dependencies
  rw [List.filter_map, List.filter_map]
  exact congrArg (List.map _) hrows

theorem relations_of_framed (h : Framed baseID db db')
    (hfree : GitUpdate.ownedBy db baseID p.id = false)
    (hfree' : GitUpdate.ownedBy db' baseID p.id = false) :
    (Extra.relations db').filter (·.id == p.id) = (Extra.relations db).filter (·.id == p.id) := by
  have hrows := GitUpdate.rows_of_rest PackageRelation.packageID hfree hfree'
    (congrArg Db.packageRelations h.rest)
  unfold Extra.relations
  rw [List.filter_map, List.filter_map]
  exact congrArg (List.map _) hrows

/-- A name that is added has a new id, so no row of before refers to it. -/
theorem filter_append_new {β : Type} {named added : List β} {key : β → Nat} {ref next : Nat}
    (hadded : ∀ b ∈ added, next ≤ key b) (href : ref < next) :
    (named ++ added).filter (key · == ref) = named.filter (key · == ref) := by
  have hnone : added.filter (key · == ref) = [] := by
    rw [List.filter_eq_nil_iff]
    intro b hb heq
    have hle := hadded b hb
    rw [eq_of_beq heq] at hle
    omega
  rw [List.filter_append, hnone, List.append_nil]

theorem groups_of_framed (hs : Stocked db) (h : Framed baseID db db')
    (hfree : GitUpdate.ownedBy db baseID p.id = false)
    (hfree' : GitUpdate.ownedBy db' baseID p.id = false) :
    (Extra.groups db').filter (·.id == p.id) = (Extra.groups db).filter (·.id == p.id) := by
  have hrows := GitUpdate.rows_of_rest PackageGroup.packageID hfree hfree'
    (congrArg Db.packageGroups h.rest)
  obtain ⟨added, hadd, hadded⟩ := h.groups
  unfold Extra.groups
  rw [filter_links, filter_links, hrows, hadd]
  refine List.flatMap_congr fun pg hpg => ?_
  rw [filter_append_new hadded (hs.keyed.packageGroups pg (List.mem_of_mem_filter hpg)).2]

theorem licenses_of_framed (hs : Stocked db) (h : Framed baseID db db')
    (hfree : GitUpdate.ownedBy db baseID p.id = false)
    (hfree' : GitUpdate.ownedBy db' baseID p.id = false) :
    (Extra.licenses db').filter (·.id == p.id) = (Extra.licenses db).filter (·.id == p.id) := by
  have hrows := GitUpdate.rows_of_rest PackageLicense.packageID hfree hfree'
    (congrArg Db.packageLicenses h.rest)
  obtain ⟨added, hadd, hadded⟩ := h.licenses
  unfold Extra.licenses
  rw [filter_links, filter_links, hrows, hadd]
  refine List.flatMap_congr fun pl hpl => ?_
  rw [filter_append_new hadded (hs.keyed.packageLicenses pl (List.mem_of_mem_filter hpl)).2]

/-- What is told of a base to each of its packages, of one package. -/
theorem filter_packages
    (hsame : db'.packages.filter (·.id == p.id) = db.packages.filter (·.id == p.id))
    (id : Nat) (type name : String) :
    ((db'.packages.filter (·.packageBaseID == id)).map fun q =>
        (⟨q.id, type, name, ""⟩ : Extra)).filter (·.id == p.id) =
      ((db.packages.filter (·.packageBaseID == id)).map fun q =>
        (⟨q.id, type, name, ""⟩ : Extra)).filter (·.id == p.id) := by
  rw [List.filter_map, List.filter_map]
  refine congrArg (List.map _) ?_
  show (db'.packages.filter (·.packageBaseID == id)).filter (·.id == p.id) =
    (db.packages.filter (·.packageBaseID == id)).filter (·.id == p.id)
  rw [List.filter_comm, hsame, List.filter_comm]

theorem keywords_of_framed (h : Framed baseID db db')
    (hsame : db'.packages.filter (·.id == p.id) = db.packages.filter (·.id == p.id)) :
    (Extra.keywords db').filter (·.id == p.id) = (Extra.keywords db).filter (·.id == p.id) := by
  have hkeywords : db'.packageKeywords = db.packageKeywords :=
    table_of_framed Db.packageKeywords (fun _ => rfl) h
  unfold Extra.keywords
  rw [hkeywords, List.filter_flatMap, List.filter_flatMap]
  exact List.flatMap_congr fun k _ => filter_packages hsame _ _ _

theorem comaintainers_of_framed (h : Framed baseID db db')
    (hsame : db'.packages.filter (·.id == p.id) = db.packages.filter (·.id == p.id)) :
    (Extra.comaintainers db').filter (·.id == p.id) =
      (Extra.comaintainers db).filter (·.id == p.id) := by
  have husers : db'.users = db.users := table_of_framed Db.users (fun _ => rfl) h
  have hrows : db'.packageComaintainers = db.packageComaintainers :=
    table_of_framed Db.packageComaintainers (fun _ => rfl) h
  unfold Extra.comaintainers
  rw [hrows, husers, List.filter_flatMap, List.filter_flatMap]
  refine List.flatMap_congr fun c _ => ?_
  rw [List.filter_flatMap, List.filter_flatMap]
  exact List.flatMap_congr fun u _ => filter_packages hsame _ _ _

/-- The rows of one package, in the union for it. -/
theorem filter_subqueries (id : Nat) :
    (Rpc.subqueries cfg db [id]).filter (·.id == id) =
      Extra.distinct cfg ((Extra.dependencies db).filter (·.id == id)) ++
      Extra.distinct cfg ((Extra.relations db).filter (·.id == id)) ++
      Extra.distinct cfg ((Extra.groups db).filter (·.id == id)) ++
      Extra.distinct cfg ((Extra.licenses db).filter (·.id == id)) ++
      Extra.distinct cfg ((Extra.keywords db).filter (·.id == id)) ++
      Extra.distinct cfg ((Extra.comaintainers db).filter (·.id == id)) := by
  have hid : id ∈ [id] := List.mem_singleton_self id
  unfold Rpc.subqueries
  simp only [List.filter_append, filter_distinct, Mkpkglists.filter_contains hid]

theorem subqueries_of_framed (hs : Stocked db) (h : Framed baseID db db')
    (hdb : Catalogue cfg db) (hdb' : Catalogue cfg db') (hp : p ∈ db.packages)
    (hother : p.packageBaseID ≠ baseID) :
    (Rpc.subqueries cfg db' [p.id]).filter (·.id == p.id) =
      (Rpc.subqueries cfg db [p.id]).filter (·.id == p.id) := by
  have hp' := mem_of_framed h hp hother
  have hfree := GitUpdate.not_owned hs hp hother
  have hfree' := GitUpdate.not_owned h.stocked hp' hother
  have hsame : db'.packages.filter (·.id == p.id) = db.packages.filter (·.id == p.id) := by
    rw [Query.filter_key_eq_singleton hdb'.packages hp',
      Query.filter_key_eq_singleton hdb.packages hp]
  rw [filter_subqueries, filter_subqueries, dependencies_of_framed h hfree hfree',
    relations_of_framed h hfree hfree', groups_of_framed hs h hfree hfree',
    licenses_of_framed hs h hfree hfree', keywords_of_framed h hsame,
    comaintainers_of_framed h hsame]

theorem openRequests_of_framed (h : Framed baseID db db') (hdb : Catalogue cfg db)
    (hdb' : Catalogue cfg db') (hp : p ∈ db.packages) (hother : p.packageBaseID ≠ baseID) :
    Rpc.openRequests db' p.id = Rpc.openRequests db p.id := by
  have hrequests : db'.packageRequests = db.packageRequests :=
    table_of_framed Db.packageRequests (fun _ => rfl) h
  have hsame : db'.packages.filter (·.id == p.id) = db.packages.filter (·.id == p.id) := by
    rw [Query.filter_key_eq_singleton hdb'.packages (mem_of_framed h hp hother),
      Query.filter_key_eq_singleton hdb.packages hp]
  unfold Rpc.openRequests
  rw [hrequests]
  congr 1
  refine List.flatMap_congr fun r _ => ?_
  rw [← List.filter_filter, ← List.filter_filter, hsame]

end

section

variable {api : Api} {popularity : Entity → Value} {returned : List Extra → List Extra}
  {db db' : Db} {p : Package} {baseID : Nat}

/-- A package of another base is told of as before. -/
theorem info_of_framed (hs : Stocked db) (h : Framed baseID db db')
    (hdb : Catalogue api.dbms.cfg db) (hdb' : Catalogue api.dbms.cfg db')
    (hreturned : ∀ rows, (returned rows).Perm rows) (hp : p ∈ db.packages)
    (hother : p.packageBaseID ≠ baseID) (key : String) :
    SameValue (infoOf api popularity returned db' p key)
      (infoOf api popularity returned db p key) := by
  have hentity := entityOf_of_framed h hdb hdb' hp hother
  by_cases hpopularity : key = "Popularity"
  · rw [info_column hreturned (by rw [hpopularity]; decide) (by rw [hpopularity]; decide),
      info_column hreturned (by rw [hpopularity]; decide) (by rw [hpopularity]; decide), hentity]
    exact Mkpkglists.sameValue_refl _
  have hlists : ∀ key, (listAt (returned (Rpc.subqueries api.dbms.cfg db' [p.id])) p.id key).Perm
      (listAt (returned (Rpc.subqueries api.dbms.cfg db [p.id])) p.id key) := by
    intro key
    refine (listAt_perm (hreturned _) p.id key).trans (.trans (.of_eq ?_)
      (listAt_perm (hreturned _) p.id key).symm)
    rw [← listAt_filter, subqueries_of_framed hs h hdb hdb' hp hother, listAt_filter]
  have hnil : listAt (returned (Rpc.subqueries api.dbms.cfg db' [p.id])) p.id "PendingRequests" =
      [] := by
    have hperm := listAt_perm (hreturned (Rpc.subqueries api.dbms.cfg db' [p.id])) p.id
      "PendingRequests"
    rw [listAt_column (by decide)] at hperm
    exact hperm.eq_nil
  unfold infoOf
  rw [hentity]
  exact info_sameValue api popularity popularity (List.mem_singleton_self _)
    (List.mem_singleton_self _) (openRequests_of_framed h hdb hdb' hp hother) hlists hnil
    hpopularity

end

/-! ### From a push to an answer -/

section

variable {db : Db}

/-- The database as a push leaves it. -/
def afterPush (cfg : Config) (db : Db) (push : GitUpdate.Push)
    (faults : Nat → Option GitUpdate.Failure) : Db :=
  ((GitUpdate.main cfg push).run faults db).2

/-- The database names the package that a push has stored for one of its packages. -/
theorem exists_stored {cfg : Config} (h : Intact cfg db) {push : GitUpdate.Push}
    {faults : Nat → Option GitUpdate.Failure}
    (hok : ((GitUpdate.main cfg push).run faults db).1 = .ok ()) {d : PackageData}
    (hd : d ∈ push.packages) :
    ∃ p ∈ (afterPush cfg db push faults).packages,
      Holds cfg (GitUpdate.readPackage (afterPush cfg db push faults) p) d ∧
        cfg.sameName (baseOf (afterPush cfg db push faults) p).name push.pkgbase = true := by
  have hafter := (h.push push faults).catalogue
  obtain ⟨baseID, hpushed⟩ := GitUpdate.main_spec h.stocked.keyed faults ⟨db, db, 0⟩ rfl () _
    (Prod.ext hok rfl)
  obtain ⟨b, hb, hid⟩ := hpushed.base
  obtain ⟨rows, hrows, hholds⟩ := Table.exists_of_forall₂ hpushed.packages hd
  obtain ⟨p, hp, rfl⟩ := List.mem_map.mp hrows
  obtain ⟨hmem, hof⟩ := List.mem_filter.mp hp
  refine ⟨p, hmem, hholds, ?_⟩
  have hsame : baseOf (afterPush cfg db push faults) p = b := by
    refine List.inj_on_of_nodup_map hafter.bases (hafter.baseOf_mem hmem)
      (List.mem_of_find?_eq_some hb) ?_
    rw [hafter.baseOf_id hmem, eq_of_beq hof, hid]
  rw [hsame]
  have hname := List.find?_some hb
  exact hname

theorem target_ne {cfg : Config} (h : Intact cfg db) {pkgbase : String} {p : Package}
    (hp : p ∈ db.packages) (hother : cfg.sameName (baseOf db p).name pkgbase = false) :
    p.packageBaseID ≠ GitUpdate.target cfg pkgbase db := by
  have hmem := h.catalogue.baseOf_mem hp
  have hid := h.catalogue.baseOf_id hp
  intro heq
  unfold GitUpdate.target at heq
  cases hbase : GitUpdate.baseByName cfg pkgbase db with
  | none =>
      rw [hbase] at heq
      have hlt := h.wellFormed.bases.lt _ hmem
      simp only at heq hlt
      omega
  | some b =>
      rw [hbase] at heq
      have hname := List.find?_some hbase
      have hsame : baseOf db p = b :=
        h.wellFormed.base_eq hmem (List.mem_of_find?_eq_some hbase) (hid.trans heq)
      rw [hsame] at hother
      exact Bool.false_ne_true (hother.symm.trans hname)

/-- **Of other packages the same is told.**  Whether a push goes through, is refused or is cut off
at any statement, the RPC answers a request for a package of another base as it did before. -/
theorem tells_elsewhere (api : Api) (popularity : Entity → Value)
    (returned : List Extra → List Extra) (h : Intact api.dbms.cfg db)
    (hmax : 1 ≤ api.maxRpcResults) (hreturned : ∀ rows, (returned rows).Perm rows)
    (ops : List Op) (push : GitUpdate.Push)
    (faults : Nat → Option GitUpdate.Failure) {p : Package}
    (hp : p ∈ (Run.exec (step api.dbms.cfg) db ops).packages)
    (hother : api.dbms.cfg.sameName
      (baseOf (Run.exec (step api.dbms.cfg) db ops) p).name push.pkgbase = false) :
    ∃ before after,
      handleMultiinfoType api popularity returned (Run.exec (step api.dbms.cfg) db ops) [p.name] =
        .ok [before] ∧
      handleMultiinfoType api popularity returned
        (afterPush api.dbms.cfg (Run.exec (step api.dbms.cfg) db ops) push faults) [p.name] =
          .ok [after] ∧
      ∀ key, SameValue (after key) (before key) := by
  have hreached := h.exec ops
  have hafter := hreached.push push faults
  have hframed : Framed (GitUpdate.target api.dbms.cfg push.pkgbase _) _
      (afterPush api.dbms.cfg (Run.exec (step api.dbms.cfg) db ops) push faults) :=
    GitUpdate.framed_run hreached.stocked hreached.wellFormed.bases.lt push faults
  have hne := target_ne hreached hp hother
  refine ⟨_, _, handleMultiinfoType_one hreached.catalogue hmax hp,
    handleMultiinfoType_one hafter.catalogue hmax (mem_of_framed hframed hp hne), ?_⟩
  exact info_of_framed hreached.stocked hframed hreached.catalogue hafter.catalogue hreturned hp hne

end

/-! ### A new version of one of two packages -/

/-- `alice` has something to say about `foo`. -/
def commented : List Op :=
  [.post 1 (10 * 1000000) (.comment "foo" "It does not build." true)]

/-- `carol` pushes a base with one package, which depends on `glibc` on both architectures. -/
def newVersion (pkgbase : String) : GitUpdate.Push where
  pkgbase := pkgbase
  user := "carol"
  privileged := false
  now := 60
  packages := [{
    name := pkgbase, version := .ok "2-1", description := some "A foo.", url := none
    passes := [{
      sources := []
      depends := fun type => if type = .depends then
        [⟨"glibc", "", ">=2.38", none⟩, ⟨"glibc", "", ">=2.38", some "x86_64"⟩,
          ⟨"sh", "", "", none⟩]
        else []
      relations := fun _ => [] }]
    licenses := ["MIT"], groups := [] }]

/-- A push of a new base that is cut off after its tenth statement. -/
theorem tells_elsewhere_cutOff :
    ∃ before after,
      handleMultiinfoType Rpc.plainApi (fun _ => .int 0) List.reverse
        (Run.exec (step siteConfig) Rpc.smallCatalogue commented) ["foo-docs"] = .ok [before] ∧
      handleMultiinfoType Rpc.plainApi (fun _ => .int 0) List.reverse
        (afterPush siteConfig (Run.exec (step siteConfig) Rpc.smallCatalogue commented)
          (newVersion "bar") fun k => if k = 10 then some (.raised "OperationalError") else none)
        ["foo-docs"] = .ok [after] ∧
      ∀ key, SameValue (after key) (before key) :=
  tells_elsewhere Rpc.plainApi (fun _ => .int 0) List.reverse smallCatalogue_intact (by decide)
    (fun rows => rows.reverse_perm) commented (newVersion "bar") _
    (show Rpc.smallPackage 6 "foo-docs" ∈ _ by decide +kernel) (by decide +kernel)

end Aurweb.Served
