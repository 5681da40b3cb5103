/-
The metadata archive against `type=info`.

`pkgname.json` has the records of the packages without what their bases have, and `pkgbase.json`
has that, once for a base, taken from whichever package of the base came last.  Nothing is lost:
what goes to the base is the same for all of its packages (`infoBase_sibling`, `listAt_keywords`),
so the two records joined by the name of the base are the record that the RPC answers with
(`joined_sameValue`), apart from `Popularity`, which is computed anew for every record.
-/
import Aurweb.Proofs.GitArchive
import Aurweb.Proofs.Mkpkglists

namespace Aurweb.GitArchive.Metadata

open Rpc (Api Data Entity Extra Value entityOf getInfoJsonData extraInfo)
open Search (Catalogue baseOf)
open Mkpkglists

variable {cfg : Config} {db : Db} {p q : Package}

/-! ### The keywords of a base -/

theorem listAt_append (rows rows' : List Extra) (id : Nat) (key : String) :
    listAt (rows ++ rows') id key = listAt rows id key ++ listAt rows' id key := by
  unfold listAt Dict.valuesAt
  rw [List.map_append, List.filter_append, List.map_append]

theorem listAt_of_types {rows : List Extra} {key : String}
    (h : ∀ r ∈ rows, Rpc.typeMapping r.type ≠ key) (id : Nat) : listAt rows id key = [] := by
  by_contra hne
  obtain ⟨r, hr, -, htype⟩ := listAt_ne_nil_iff.mp hne
  exact h r hr htype

/-- A keyword is a row for a package just if it is one of its base. -/
theorem listAt_keyword (h : Catalogue cfg db) (hp : p ∈ db.packages) (k : PackageKeyword) :
    listAt ((db.packages.filter (·.packageBaseID == k.packageBaseID)).map fun q =>
        ⟨q.id, "Keywords", k.keyword, ""⟩) p.id "Keywords" =
      if k.packageBaseID == p.packageBaseID then [k.keyword] else [] := by
  have hrow : ((db.packages.filter (·.packageBaseID == k.packageBaseID)).map fun q =>
      (⟨q.id, "Keywords", k.keyword, ""⟩ : Extra)).filter (·.id == p.id) =
        ([p].filter (·.packageBaseID == k.packageBaseID)).map fun q =>
          ⟨q.id, "Keywords", k.keyword, ""⟩ := by
    have hself : db.packages.filter (·.id == p.id) = [p] :=
      Query.filter_key_eq_singleton h.packages hp
    rw [List.filter_map, ← hself, List.filter_comm]
    rfl
  rw [← listAt_filter, hrow]
  by_cases hbase : k.packageBaseID = p.packageBaseID
  · rw [hbase, List.filter_singleton, beq_self_eq_true]
    simp [listAt, Dict.valuesAt, entry, Rpc.typeMapping]
  · have hother : (p.packageBaseID == k.packageBaseID) = false := beq_false_of_ne (Ne.symm hbase)
    rw [List.filter_singleton, hother, beq_false_of_ne hbase]
    rfl

/-- The keywords of a package are those of its base, in one order for all packages. -/
theorem listAt_keywords (h : Catalogue cfg db) (hp : p ∈ db.packages) :
    listAt (subqueries cfg db) p.id "Keywords" =
      (db.packageKeywords.filter (·.packageBaseID == p.packageBaseID)).map (·.keyword) := by
  have hdeps : listAt (Extra.distinct cfg (Extra.dependencies db)) p.id "Keywords" = [] := by
    refine listAt_of_types (fun r hr htype => ?_) _
    obtain ⟨dep, -, rfl⟩ := List.mem_map.mp (mem_distinct hr)
    exact absurd (htype ▸ typeMapping_dependency dep.depType) (by decide)
  have hrels : listAt (Extra.distinct cfg (Extra.relations db)) p.id "Keywords" = [] := by
    refine listAt_of_types (fun r hr htype => ?_) _
    obtain ⟨rel, -, rfl⟩ := List.mem_map.mp (mem_distinct hr)
    exact absurd (htype ▸ typeMapping_relation rel.relType) (by decide)
  have hgroups : listAt (Extra.groups db) p.id "Keywords" = [] := by
    refine listAt_of_types (fun r hr htype => ?_) _
    obtain ⟨pg, -, hg⟩ := List.mem_flatMap.mp hr
    obtain ⟨g, -, rfl⟩ := List.mem_map.mp hg
    exact absurd (show Rpc.typeMapping "Groups" = _ from htype) (by decide)
  have hlicenses : listAt (Extra.licenses db) p.id "Keywords" = [] := by
    refine listAt_of_types (fun r hr htype => ?_) _
    obtain ⟨pl, -, hl⟩ := List.mem_flatMap.mp hr
    obtain ⟨l, -, rfl⟩ := List.mem_map.mp hl
    exact absurd (show Rpc.typeMapping "License" = _ from htype) (by decide)
  have hcomaintainers :
      listAt (Extra.distinct cfg (Extra.comaintainers db)) p.id "Keywords" = [] := by
    refine listAt_of_types (fun r hr htype => ?_) _
    obtain ⟨c, -, hu⟩ := List.mem_flatMap.mp (mem_distinct hr)
    obtain ⟨u, -, hq⟩ := List.mem_flatMap.mp hu
    obtain ⟨q, -, rfl⟩ := List.mem_map.mp hq
    exact absurd (show Rpc.typeMapping "CoMaintainers" = _ from htype) (by decide)
  unfold subqueries
  simp only [listAt_append, hdeps, hrels, hgroups, hlicenses, hcomaintainers, List.nil_append,
    List.append_nil]
  unfold Extra.keywords
  induction db.packageKeywords with
  | nil => rfl
  | cons k keywords ih =>
      rw [List.flatMap_cons, listAt_append, listAt_keyword h hp, ih, List.filter_cons]
      split
      · rfl
      · rfl

/-! ### Two records of packages of one base -/

theorem sameValue_trans {u v w : Option Value} (huv : SameValue u v) (hvw : SameValue v w) :
    SameValue u w := by
  unfold SameValue at *
  grind [List.Perm.trans]

section

variable (api : Api)

/-- What a record has of the base of the package. -/
theorem infoBase_sibling (popularity popularity' : Entity → Value)
    (hbase : baseOf db p = baseOf db q) (hid : p.packageBaseID = q.packageBaseID) {key : String}
    (hkey : key ∈ popped) (hpopularity : key ≠ "Popularity") :
    infoBase popularity api (entityOf db p) key = infoBase popularity' api (entityOf db q) key := by
  have hentity : entityOf db p =
      { entityOf db q with
        id := p.id
        name := p.name
        version := p.version
        description := p.description
        url := p.url } := by
    simp only [entityOf, hbase, hid]
  rw [hentity]
  simp only [popped, List.mem_cons, List.not_mem_nil, or_false] at hkey
  rcases hkey with rfl | rfl | rfl | rfl | rfl | rfl | rfl | rfl | rfl
  all_goals first | rfl | exact absurd rfl hpopularity

theorem infoBase_popularity (popularity popularity' : Entity → Value) (e : Entity) {key : String}
    (hpopularity : key ≠ "Popularity") :
    infoBase popularity api e key = infoBase popularity' api e key := by
  by_cases hkey : key ∈ baseKeys
  · simp only [baseKeys, List.mem_cons, List.not_mem_nil, or_false] at hkey
    rcases hkey with rfl | rfl | rfl | rfl | rfl | rfl | rfl | rfl | rfl | rfl | rfl | rfl | rfl |
      rfl | rfl
    all_goals first | rfl | exact absurd rfl hpopularity
  · rw [infoBase_eq_none _ _ _ hkey, infoBase_eq_none _ _ _ hkey]

theorem info_pending (popularity : Entity → Value) {ids : List Nat} {rows : List Extra}
    {e : Entity} (hid : e.id ∈ ids) (hnil : listAt rows e.id "PendingRequests" = []) :
    getInfoJsonData api popularity (extraInfo db ids rows) e "PendingRequests" =
      some (.int (Rpc.openRequests db e.id)) := by
  have hextra : extraInfo db ids rows e.id "PendingRequests" =
      if Rpc.openRequests db e.id ≠ 0 then some (.int (Rpc.openRequests db e.id)) else none := by
    have hlist := collect_listAt rows e.id "PendingRequests"
    rw [hnil, if_pos rfl] at hlist
    unfold extraInfo
    by_cases hopen : Rpc.openRequests db e.id = 0
    · rw [if_neg fun h => h.2.2 hopen, if_neg (not_not.mpr hopen)]
      exact hlist
    · rw [if_pos ⟨rfl, hid, hopen⟩, if_pos hopen]
  show (extraInfo db ids rows e.id "PendingRequests").or _ = _
  rw [hextra]
  by_cases hopen : Rpc.openRequests db e.id = 0
  · rw [if_neg (not_not.mpr hopen), hopen]
    rfl
  · rw [if_pos hopen]
    rfl

/-- The records of a package from two answers of the database. -/
theorem info_sameValue (popularity popularity' : Entity → Value) {db' : Db} {ids ids' : List Nat}
    {rows rows' : List Extra} {e : Entity} (hid : e.id ∈ ids) (hid' : e.id ∈ ids')
    (hopen : Rpc.openRequests db e.id = Rpc.openRequests db' e.id)
    (hrows : ∀ key, (listAt rows e.id key).Perm (listAt rows' e.id key))
    (hnil : listAt rows e.id "PendingRequests" = []) {key : String}
    (hpopularity : key ≠ "Popularity") :
    SameValue (getInfoJsonData api popularity (extraInfo db ids rows) e key)
      (getInfoJsonData api popularity' (extraInfo db' ids' rows') e key) := by
  by_cases hpending : key = "PendingRequests"
  · subst hpending
    have hnil' := (nil_iff_of_perm (hrows "PendingRequests")).mp hnil
    rw [info_pending api popularity hid hnil, info_pending api popularity' hid' hnil', hopen]
    exact sameValue_refl _
  · rw [info_apply popularity api rows e hpending, info_apply popularity' api rows' e hpending,
      infoBase_popularity api popularity popularity' e hpopularity]
    by_cases hempty : listAt rows e.id key = []
    · rw [if_pos hempty, if_pos ((nil_iff_of_perm (hrows key)).mp hempty)]
      exact sameValue_refl _
    · rw [if_neg hempty, if_neg (mt (nil_iff_of_perm (hrows key)).mpr hempty)]
      exact hrows key

end

/-! ### The files -/

section

variable {s : Settings} {run : Run}

theorem entityOf_id (db : Db) (p : Package) : (entityOf db p).id = p.id := rfl

/-- The rows that a run has of the packages. -/
def rowsOf (s : Settings) (run : Run) : List Extra :=
  run.returned (Rpc.subqueries s.api.dbms.cfg run.db ((packages run).map (·.id)))

theorem info_eq (s : Settings) (run : Run) (e : Entity) :
    info s run e = getInfoJsonData s.api run.popularity
      (extraInfo run.db ((packages run).map (·.id)) (rowsOf s run)) e := rfl

theorem packages_perm (h : Catalogue s.api.dbms.cfg run.db) :
    (packages run).Perm (run.db.packages.map (entityOf run.db)) := by
  have hperm := (Rpc.gives_init h).perm_entities h
  rwa [List.filter_true] at hperm

theorem mem_packages (h : Catalogue s.api.dbms.cfg run.db) {e : Entity} :
    e ∈ packages run ↔ ∃ p ∈ run.db.packages, entityOf run.db p = e := by
  rw [(packages_perm h).mem_iff, List.mem_map]

theorem mem_ids (h : Catalogue s.api.dbms.cfg run.db) (hp : p ∈ run.db.packages) :
    p.id ∈ (packages run).map (·.id) :=
  List.mem_map_of_mem (f := (·.id)) ((mem_packages h).mpr ⟨p, hp, rfl⟩)

/-- The rows of a package, whatever the order they are returned in. -/
theorem listAt_rowsOf (h : Catalogue s.api.dbms.cfg run.db) (hc : Contents s.api.dbms.cfg run.db)
    (hreturned : ∀ rows, (run.returned rows).Perm rows) (hp : p ∈ run.db.packages)
    (key : String) :
    (listAt (rowsOf s run) p.id key).Perm (listAt (subqueries s.api.dbms.cfg run.db) p.id key) :=
  listAt_rpc h hc (mem_ids h hp) (hreturned _) key

theorem listAt_rowsOf_nil (h : Catalogue s.api.dbms.cfg run.db)
    (hc : Contents s.api.dbms.cfg run.db) (hreturned : ∀ rows, (run.returned rows).Perm rows)
    (hp : p ∈ run.db.packages) {key : String} (hkey : key ∉ listKeys) :
    listAt (rowsOf s run) p.id key = [] :=
  (nil_iff_of_perm (listAt_rowsOf h hc hreturned hp key)).mpr (listAt_eq_nil hkey)

/-- What goes to the base is the same for all of its packages. -/
theorem info_sibling (h : Catalogue s.api.dbms.cfg run.db) (hc : Contents s.api.dbms.cfg run.db)
    (hreturned : ∀ rows, (run.returned rows).Perm rows) (hp : p ∈ run.db.packages)
    (hq : q ∈ run.db.packages) (hbase : baseOf run.db p = baseOf run.db q) {key : String}
    (hkey : key ∈ popped) (hpopularity : key ≠ "Popularity") :
    SameValue (info s run (entityOf run.db p) key) (info s run (entityOf run.db q) key) := by
  have hid : p.packageBaseID = q.packageBaseID := by
    rw [← h.baseOf_id hp, ← h.baseOf_id hq, hbase]
  have hpending : key ≠ "PendingRequests" := by
    rintro rfl
    exact absurd hkey (by decide)
  rw [info_eq, info_eq, info_apply _ _ _ _ hpending, info_apply _ _ _ _ hpending,
    entityOf_id, entityOf_id]
  by_cases hkeywords : key = "Keywords"
  · subst hkeywords
    have hlists : (listAt (rowsOf s run) p.id "Keywords").Perm
        (listAt (rowsOf s run) q.id "Keywords") := by
      refine (listAt_rowsOf h hc hreturned hp _).trans (.trans (.of_eq ?_)
        (listAt_rowsOf h hc hreturned hq _).symm)
      rw [listAt_keywords h hp, listAt_keywords h hq, hid]
    by_cases hempty : listAt (rowsOf s run) p.id "Keywords" = []
    · rw [if_pos hempty, if_pos ((nil_iff_of_perm hlists).mp hempty)]
      exact sameValue_refl _
    · rw [if_neg hempty, if_neg (mt (nil_iff_of_perm hlists).mpr hempty)]
      exact hlists
  · have hlist : key ∉ listKeys := by
      simp only [popped, List.mem_cons, List.not_mem_nil, or_false] at hkey
      rcases hkey with rfl | rfl | rfl | rfl | rfl | rfl | rfl | rfl | rfl
      all_goals first | decide | exact absurd rfl hkeywords
    rw [if_pos (listAt_rowsOf_nil h hc hreturned hp hlist),
      if_pos (listAt_rowsOf_nil h hc hreturned hq hlist),
      infoBase_sibling s.api run.popularity run.popularity hbase hid hkey hpopularity]
    exact sameValue_refl _

/-! ### The two files joined -/

/-- The record of a package, from what the files have of it and of its base. -/
def joined (pkgbase pkgname : Data) : Data := fun key =>
  if key = "PackageBaseID" then pkgbase "ID" else if key ∈ popped then pkgbase key else pkgname key

theorem joined_apply (popularityUpdated : Value) (data data' : Data) {key : String}
    (hid : key ≠ "ID") :
    joined (pkgbaseData popularityUpdated data') (pop ("ID" :: popped) data) key =
      if key ∈ popped then data' key else data key := by
  unfold joined
  by_cases hbase : key = "PackageBaseID"
  · subst hbase
    rw [if_pos rfl, if_pos (by decide)]
    rfl
  · rw [if_neg hbase]
    by_cases hpopped : key ∈ popped
    · have hupdated : key ≠ "PopularityUpdated" := by
        rintro rfl
        exact absurd hpopped (by decide)
      rw [if_pos hpopped, if_pos hpopped, pkgbaseData, if_neg hid, if_neg hupdated,
        if_pos ⟨hpopped, hbase⟩]
    · have hkept : key ∉ "ID" :: popped := by
        rw [List.mem_cons, not_or]
        exact ⟨hid, hpopped⟩
      rw [if_neg hpopped, if_neg hpopped, pop, if_neg hkept]

/-- The names of the packages are the keys of `pkgname.json`, each of them once. -/
theorem pkgnames_apply (h : Catalogue s.api.dbms.cfg run.db) (hp : p ∈ run.db.packages) :
    Dict.ofList (pkgnames s run) p.name =
      some (pop ("ID" :: popped) (info s run (entityOf run.db p))) := by
  have hmem : (p.name, pop ("ID" :: popped) (info s run (entityOf run.db p))) ∈
      (packages run).map fun package =>
        (package.name, pop ("ID" :: popped) (info s run package)) :=
    List.mem_map.mpr ⟨entityOf run.db p, (mem_packages h).mpr ⟨p, hp, rfl⟩, rfl⟩
  obtain ⟨data, hdata, hpair⟩ := Dict.exists_ofList_ofPairs (List.mem_map_of_mem (f := (·.1)) hmem)
  obtain ⟨e, he, heq⟩ := List.mem_map.mp hpair
  obtain ⟨q, hq, rfl⟩ := (mem_packages h).mp he
  obtain ⟨hname, rfl⟩ := Prod.mk.inj heq
  have hname' : q.name = p.name := hname
  rw [show q = p from List.inj_on_of_nodup_map h.packageNames hq hp (by rw [hname'])] at hdata
  exact hdata

/-- What `pkgbase.json` has of a base is from one of its packages. -/
theorem pkgbases_apply (h : Catalogue s.api.dbms.cfg run.db) (hp : p ∈ run.db.packages) :
    ∃ q ∈ run.db.packages, baseOf run.db q = baseOf run.db p ∧
      Dict.ofList (pkgbases s run) (baseOf run.db p).name =
        some (pkgbaseData (run.popularityUpdated (entityOf run.db q))
          (info s run (entityOf run.db q))) := by
  have hmem : ((baseOf run.db p).name, pkgbaseData (run.popularityUpdated (entityOf run.db p))
      (info s run (entityOf run.db p))) ∈ (packages run).map fun package =>
        (package.packageBaseName,
          pkgbaseData (run.popularityUpdated package) (info s run package)) :=
    List.mem_map.mpr ⟨entityOf run.db p, (mem_packages h).mpr ⟨p, hp, rfl⟩, rfl⟩
  obtain ⟨data, hdata, hpair⟩ := Dict.exists_ofList_ofPairs (List.mem_map_of_mem (f := (·.1)) hmem)
  obtain ⟨e, he, heq⟩ := List.mem_map.mp hpair
  obtain ⟨q, hq, rfl⟩ := (mem_packages h).mp he
  obtain ⟨hname, rfl⟩ := Prod.mk.inj heq
  have hname' : (baseOf run.db q).name = (baseOf run.db p).name := hname
  refine ⟨q, hq, ?_, hdata⟩
  exact List.inj_on_of_nodup_map h.baseNames (h.baseOf_mem hq) (h.baseOf_mem hp) (by rw [hname'])

/-- What is read of the files for a package. -/
structure Filed (s : Settings) (run : Run) (p : Package) (pkgbase pkgname : Data) : Prop where
  inNames : Dict.ofList (pkgnames s run) p.name = some pkgname
  /-- The key the files are joined by. -/
  base : pkgname "PackageBase" = some (.str (baseOf run.db p).name)
  inBases : Dict.ofList (pkgbases s run) (baseOf run.db p).name = some pkgbase

/-- A package is in both files, and joined they have its record. -/
theorem filed (h : Catalogue s.api.dbms.cfg run.db) (hc : Contents s.api.dbms.cfg run.db)
    (hreturned : ∀ rows, (run.returned rows).Perm rows) (hp : p ∈ run.db.packages) :
    ∃ pkgbase pkgname, Filed s run p pkgbase pkgname ∧
      ∀ key, key ≠ "ID" → key ≠ "Popularity" →
        SameValue (joined pkgbase pkgname key) (info s run (entityOf run.db p) key) := by
  obtain ⟨q, hq, hbase, hpkgbase⟩ := pkgbases_apply (s := s) h hp
  refine ⟨_, _, ⟨pkgnames_apply h hp, ?_, hpkgbase⟩, ?_⟩
  · have hnil : listAt (rowsOf s run) p.id "PackageBase" = [] :=
      listAt_rowsOf_nil h hc hreturned hp (by decide)
    show info s run (entityOf run.db p) "PackageBase" = _
    rw [info_eq, info_apply _ _ _ _ (by decide), entityOf_id, if_pos hnil]
    rfl
  · intro key hid hpopularity
    rw [joined_apply _ _ _ hid]
    by_cases hpopped : key ∈ popped
    · rw [if_pos hpopped]
      exact info_sibling h hc hreturned hq hp hbase hpopped hpopularity
    · rw [if_neg hpopped]
      exact sameValue_refl _

/-- The metadata archive loses nothing of what the RPC tells.  Every package is in `pkgname.json`
by its name, its base in `pkgbase.json` by the name that the package's record gives, and the two
records joined have the keys of the record that a request for the package is answered with, with
the same values: all of them but `ID`, which is left out, and `Popularity`. -/
theorem joined_sameValue (s : Settings) (run : Run) (p : Package) (args : List String)
    (popularity : Entity → Value) (returned : List Extra → List Extra)
    (h : Catalogue s.api.dbms.cfg run.db) (hc : Contents s.api.dbms.cfg run.db)
    (hp : p ∈ run.db.packages) (hasked : args.any (s.api.dbms.cfg.sameName p.name) = true)
    (hmax : (run.db.packages.filter fun q => args.any (s.api.dbms.cfg.sameName q.name)).length ≤
      s.api.maxRpcResults)
    (hrun : ∀ rows, (run.returned rows).Perm rows)
    (hreturned : ∀ rows, (returned rows).Perm rows) :
    ∃ records info pkgbase pkgname,
      Rpc.handleMultiinfoType s.api popularity returned run.db args = .ok records ∧
      records.filter (isRecordOf p.id) = [info] ∧ Filed s run p pkgbase pkgname ∧
      ∀ key, key ≠ "ID" → key ≠ "Popularity" →
        SameValue (joined pkgbase pkgname key) (info key) := by
  have hmem : entityOf run.db p ∈ asked s.api run.db args :=
    (asked_perm h args).mem_iff.mpr (List.mem_map_of_mem (List.mem_filter.mpr ⟨hp, hasked⟩))
  have hid : p.id ∈ (asked s.api run.db args).map (·.id) := List.mem_map_of_mem (f := (·.id)) hmem
  have hargs : args ≠ [] := by
    rintro rfl
    exact Bool.false_ne_true hasked
  have hle : (asked s.api run.db args).length ≤ s.api.maxRpcResults := by
    rw [(asked_perm h args).length_eq, List.length_map]
    exact hmax
  obtain ⟨pkgbase, pkgname, hfiled, hjoined⟩ := filed h hc hrun hp
  refine ⟨_, _, pkgbase, pkgname, handleMultiinfoType_eq s.api popularity returned run.db hargs hle,
    filter_records s.api popularity h hc hp hasked (hreturned _), hfiled, ?_⟩
  intro key hne hpopularity
  have hlists : ∀ key, (listAt (rowsOf s run) p.id key).Perm
      (listAt (returned (Rpc.subqueries s.api.dbms.cfg run.db
        ((asked s.api run.db args).map (·.id)))) p.id key) := fun key =>
    (listAt_rowsOf h hc hrun hp key).trans (listAt_rpc h hc hid (hreturned _) key).symm
  exact sameValue_trans (hjoined key hne hpopularity) <|
    info_sameValue s.api run.popularity popularity (mem_ids h hp) hid rfl hlists
      (listAt_rowsOf_nil h hc hrun hp (by decide)) hpopularity

theorem joined_sameValue_fooDocs :
    ∃ records info pkgbase pkgname,
      Rpc.handleMultiinfoType Rpc.plainApi (fun _ => .int 0) List.reverse archived
        ["foo-docs", "foo"] = .ok records ∧
      records.filter (isRecordOf 6) = [info] ∧
      Filed plainSettings (plainRun archived) (Rpc.smallPackage 6 "foo-docs") pkgbase pkgname ∧
      ∀ key, key ≠ "ID" → key ≠ "Popularity" →
        SameValue (joined pkgbase pkgname key) (info key) :=
  joined_sameValue plainSettings (plainRun archived) (Rpc.smallPackage 6 "foo-docs")
    ["foo-docs", "foo"] (fun _ => .int 0) List.reverse archived_catalogue archived_contents
    (by decide) (by decide) (by decide) (fun rows => .refl rows) fun rows => rows.reverse_perm

end

end Aurweb.GitArchive.Metadata
