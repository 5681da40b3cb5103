/-
What an accepted push of a `.SRCINFO` stores.

`SaveMetadata` says that a push stores its packages; here the packages are those of a
`.SRCINFO`.  `Merged` compares the rows of one package with its section laid over the
section of the base, and `accepted_push` puts that together with what a push leaves alone.
The rows are the entries of the merged section, once for every time an architecture is
listed, and licenses and groups go by the name that was there first: see
`listed_twice_stored_twice`.
-/
import Aurweb.GitUpdateLegacy
import Aurweb.Proofs.SaveMetadata

namespace Aurweb.GitUpdateLegacy

open Txn Txn.Prog GitUpdate

/-! ### A section over the section of the base -/

def Section.over (pkg base : Section) : Section where
  str field := (pkg.str field).or (base.str field)
  arr field := (pkg.arr field).or (base.arr field)

/-- The values of a field, with and without an architecture. -/
def Section.entries (s : Section) (field : String) : List Entry :=
  archEntries s ((s.arr "arch").getD []) field

/-- The rows are what the package's section says, over the section of its base. -/
structure Merged (cfg : Config) (digits : Digits) (info : Srcinfo) (rows : PackageRows)
    (entry : String × Section) : Prop where
  name : rows.name = entry.1
  version : version digits (entry.2.over info.base) = .ok rows.version
  description : rows.description = (entry.2.over info.base).str "pkgdesc"
  url : rows.url = (entry.2.over info.base).str "url"
  sources : rows.sources = ((entry.2.over info.base).entries "source").map (·.source)
  depends : rows.depends = depTypes.flatMap fun t =>
    ((entry.2.over info.base).entries (depField t)).map fun e => (t, e.dependency)
  relations : rows.relations = relTypes.flatMap fun t =>
    ((entry.2.over info.base).entries (relField t)).map fun e => (t, e.relation)
  licenses : List.Forall₂ (fun stored name => cfg.sameName stored name = true)
    rows.licenses (((entry.2.over info.base).arr "license").getD [])
  groups : List.Forall₂ (fun stored name => cfg.sameName stored name = true)
    rows.groups (((entry.2.over info.base).arr "groups").getD [])

/-- Only the lists of a section matter to its entries. -/
theorem archEntries_congr {s t : Section} (h : s.arr = t.arr) (arches : List String)
    (field : String) : archEntries s arches field = archEntries t arches field := by
  simp only [archEntries, h]

theorem version_congr (digits : Digits) {s t : Section} (hepoch : s.str "epoch" = t.str "epoch")
    (hpkgver : s.str "pkgver" = t.str "pkgver") (hpkgrel : s.str "pkgrel" = t.str "pkgrel") :
    version digits s = version digits t := by
  simp only [version, Section.getStr, hepoch, hpkgver, hpkgrel]

/-- What `packageData` returns. -/
theorem packageData_eq (digits : Digits) {s : Section} {name : String} {arches : List String}
    (hname : s.str "pkgname" = some name) (harch : s.arr "arch" = some arches) :
    packageData digits s = .ok {
      name
      version := version digits s
      description := s.str "pkgdesc"
      url := s.str "url"
      passes := [{
        sources := (archEntries s arches "source").map (·.source)
        depends := fun t => (archEntries s arches (depField t)).map (·.dependency)
        relations := fun t => (archEntries s arches (relField t)).map (·.relation) }]
      licenses := (s.arr "license").getD []
      groups := (s.arr "groups").getD [] } := by
  simp only [packageData, Section.getStr, Section.getArr, hname, harch, bind, Except.bind, pure,
    Except.pure]

theorem packageData_ok {digits : Digits} {s : Section} {d : PackageData}
    (h : packageData digits s = .ok d) :
    ∃ name arches, s.str "pkgname" = some name ∧ s.arr "arch" = some arches ∧ d = {
      name
      version := version digits s
      description := s.str "pkgdesc"
      url := s.str "url"
      passes := [{
        sources := (archEntries s arches "source").map (·.source)
        depends := fun t => (archEntries s arches (depField t)).map (·.dependency)
        relations := fun t => (archEntries s arches (relField t)).map (·.relation) }]
      licenses := (s.arr "license").getD []
      groups := (s.arr "groups").getD [] } := by
  cases hname : s.str "pkgname" with
  | none => simp [packageData, Section.getStr, hname, bind, Except.bind] at h
  | some name =>
      cases harch : s.arr "arch" with
      | none =>
          simp [packageData, Section.getStr, Section.getArr, hname, harch, bind, Except.bind] at h
      | some arches =>
          rw [packageData_eq digits hname harch] at h
          exact ⟨name, arches, rfl, rfl, (Except.ok.inj h).symm⟩

/-- **The rows of a package of the push are those of its merged section.** -/
theorem merged_of_holds {cfg : Config} {digits : Digits} {utils : Utils} {info : Srcinfo}
    {entry : String × Section} (hentry : entry ∈ info.packages) {rows : PackageRows}
    {d : PackageData} (hd : packageData digits (utils.getMergedPackage entry.1 info) = .ok d)
    (h : Holds cfg rows d) : Merged cfg digits info rows entry := by
  obtain ⟨name, arches, hname, harch, rfl⟩ := packageData_ok hd
  have harr : (utils.getMergedPackage entry.1 info).arr = (entry.2.over info.base).arr :=
    funext fun field => utils.arr_eq info entry hentry field
  have hstr : ∀ field, field ≠ "pkgname" →
      (utils.getMergedPackage entry.1 info).str field = (entry.2.over info.base).str field :=
    fun field hne => utils.str_eq info entry hentry field hne
  have hentries : ∀ field, archEntries (utils.getMergedPackage entry.1 info) arches field =
      (entry.2.over info.base).entries field := by
    intro field
    rw [harr] at harch
    rw [archEntries_congr harr, Section.entries, harch]
    rfl
  have hversion := version_congr digits (hstr "epoch" (by decide))
    (hstr "pkgver" (by decide)) (hstr "pkgrel" (by decide))
  have hkey : name = entry.1 := by
    rw [utils.pkgname_eq info entry hentry] at hname
    exact (Option.some.inj hname).symm
  constructor
  · exact h.name.trans hkey
  · exact hversion.symm.trans h.version
  · exact h.description.trans (hstr "pkgdesc" (by decide))
  · exact h.url.trans (hstr "url" (by decide))
  · rw [h.sources, ← hentries]
    simp [PackageData.sources]
  · rw [h.depends]
    simp [PackageData.depends, Pass.allDepends, hentries, Function.comp_def]
  · rw [h.relations]
    simp [PackageData.relations, Pass.allRelations, hentries, Function.comp_def]
  · rw [← harr]
    exact h.licenses
  · rw [← harr]
    exact h.groups

/-! ### From the names of the file to its sections -/

theorem forall₂_trans_flip {α β γ : Type} {R : α → γ → Prop} {S : β → γ → Prop}
    {T : α → β → Prop} (h : ∀ a b c, R a c → S b c → T a b) :
    ∀ {as : List α} {bs : List β} {cs : List γ}, List.Forall₂ R as cs → List.Forall₂ S bs cs →
      List.Forall₂ T as bs
  | _, _, _, .nil, .nil => .nil
  | _, _, _, .cons ha has, .cons hb hbs => .cons (h _ _ _ ha hb) (forall₂_trans_flip h has hbs)

/-- What the hook makes of the packages, section by section. -/
theorem packages_of_mapM {digits : Digits} {utils : Utils} {info : Srcinfo}
    {packages : List PackageData}
    (h : (utils.getPackageNames info).mapM (fun pkgname =>
      packageData digits (utils.getMergedPackage pkgname info)) = .ok packages) :
    List.Forall₂ (fun entry d => entry ∈ info.packages ∧
        packageData digits (utils.getMergedPackage entry.1 info) = .ok d)
      info.packages packages := by
  rw [utils.names_eq, List.mapM_map] at h
  exact Table.forall₂_of_mapM h

/-! ### Accepted pushes -/

theorem main_spec {digits : Digits} {utils : Utils} {cfg : Config} {push : Push} {db : Db}
    (hk : Keyed db) :
    Triple (fun c => c.working = db) (main digits utils cfg push) fun _ c =>
      ∃ baseID packages, Pushed cfg push.pkgbase baseID packages db c.committed ∧
        List.Forall₂ (fun entry d => entry ∈ push.metadata.packages ∧
          packageData digits (utils.getMergedPackage entry.1 push.metadata) = .ok d)
          push.metadata.packages packages := by
  refine Triple.bind (R := fun _ c => c.working = db) (Triple.ofExcept fun _ _ h _ => h)
    fun _ => ?_
  refine Triple.bind (R := fun _ c => c.working = db) (Triple.ofExcept fun _ _ h _ => h)
    fun _ => ?_
  refine Triple.bind (R := fun _ c => c.working = db) (Triple.ofExcept fun _ _ h _ => h)
    fun pkgbase => ?_
  refine Triple.bind (R := fun _ c => pkgbase = push.pkgbase ∧ c.working = db) ?_ fun _ => ?_
  · refine Triple.when (fun _ => Triple.raise _) fun hsame c hc => ⟨?_, hc⟩
    simpa using hsame
  refine Triple.assume fun hpkgbase => ?_
  refine Triple.bind (R := fun packages c => _ = Except.ok packages ∧ c.working = db)
    (Triple.ofExcept fun c packages hc hpackages => ⟨hpackages, hc⟩) fun packages => ?_
  refine Triple.assume fun hpackages => ?_
  refine (GitUpdate.main_spec hk).imp (fun _ h => h) fun _ c hc => ?_
  obtain ⟨baseID, hpushed⟩ := hc
  refine ⟨baseID, packages, ?_, packages_of_mapM hpackages⟩
  rw [← hpkgbase]
  exact hpushed

theorem uniqueNames_main (digits : Digits) (utils : Utils) {cfg : Config} (push : Push) {db : Db}
    (h : UniqueNames cfg db) (faults : Nat → Option Failure) :
    UniqueNames cfg ((main digits utils cfg push).run faults db).2 := by
  have hkept : Preserves (UniqueNames cfg) (main digits utils cfg push) := by
    refine Preserves.bind (Preserves.ofExcept _) fun _ => ?_
    refine Preserves.bind (Preserves.ofExcept _) fun _ => ?_
    refine Preserves.bind (Preserves.ofExcept _) fun pkgbase => ?_
    refine Preserves.bind (Preserves.when fun _ => Preserves.raise _) fun _ => ?_
    exact Preserves.bind (Preserves.ofExcept _) fun packages => (keptBy_uniqueNames cfg _).main
  exact hkept.run faults h

/--
**What an accepted push stores.**  The packages of the base are those of the `.SRCINFO`,
each with the rows of its merged section; no other base has lost or gained a row, and no
two bases have a package of one name.
-/
theorem accepted_push {digits : Digits} {utils : Utils} {cfg : Config} {push : Push} {db : Db}
    (hk : Keyed db) (hnames : UniqueNames cfg db) {faults : Nat → Option Failure}
    (hok : ((main digits utils cfg push).run faults db).1 = .ok ()) :
    ∃ base db', ((main digits utils cfg push).run faults db).2 = db' ∧
      baseByName cfg push.pkgbase db' = some base ∧
      List.Forall₂ (Merged cfg digits push.metadata)
        ((db'.packages.filter (·.packageBaseID == base.id)).map (readPackage db'))
        push.metadata.packages ∧
      restOf base.id db' = restOf base.id db ∧
      db.licenses <+: db'.licenses ∧ db.groups <+: db'.groups ∧
      ∀ p ∈ db'.packages, ∀ q ∈ db'.packages, cfg.sameName p.name q.name = true →
        p.packageBaseID = q.packageBaseID := by
  have hstart : Triple (· = ⟨db, db, 0⟩) (main digits utils cfg push) _ :=
    (main_spec hk).imp (fun c hc => by rw [hc]) fun _ _ h => h
  obtain ⟨c, hc, hstored⟩ := hstart.run hok
  obtain ⟨baseID, packages, hpushed, hpackages⟩ := hc
  obtain ⟨base, hbase, rfl⟩ := hpushed.base
  have hunique := uniqueNames_main digits utils push hnames faults
  rw [hstored] at hunique
  refine ⟨base, c.committed, hstored, hbase, ?_, hpushed.rest, hpushed.licenses, hpushed.groups, ?_⟩
  · refine forall₂_trans_flip (fun rows entry d hholds hentry => ?_) hpushed.packages hpackages
    exact merged_of_holds hentry.1 hentry.2 hholds
  · intro p hp q hq hname
    rw [hunique.eq hp hq hname]

/-! ### An example, with an architecture that is listed twice -/

/-- Digits are the ten of ASCII. -/
def asciiDigits : Digits where
  isDigit c := c.isDigit
  decimal c := if c.isDigit then some (c.toNat - '0'.toNat) else none

/-- The merge, as documented. -/
def mergedSection (pkgname : String) (info : Srcinfo) : Section :=
  let pkg := ((info.packages.find? (·.1 == pkgname)).map (·.2)).getD info.base
  { pkg.over info.base with
    str := fun field => if field = "pkgname" then some pkgname else (pkg.over info.base).str field }

theorem find?_entry {info : Srcinfo} {entry : String × Section} (h : entry ∈ info.packages) :
    info.packages.find? (·.1 == entry.1) = some entry :=
  Table.find?_key info.nodup h

def plainUtils : Utils where
  getPackageNames info := info.packages.map (·.1)
  getMergedPackage := mergedSection
  names_eq _ := rfl
  pkgname_eq _ _ _ := rfl
  str_eq info entry h field hne := by
    simp [mergedSection, find?_entry h, hne, Section.over]
  arr_eq info entry h field := by
    simp [mergedSection, find?_entry h, Section.over]

/-- Names compare letter by letter, except that `mit` is `MIT`. -/
def foldingConfig : Config := Config.defaults (fun s => if s = "mit" then "MIT" else s) fun _ => true

/-- Alice maintains `foo`, and there is a license. -/
def licensedDb : Db := { fooDb with licenses := [{ id := 4, name := "MIT" }], nextID := 5 }

theorem keyed_licensedDb : Keyed licensedDb where
  packages := by decide
  sources := by decide
  depends := by decide
  relations := by decide
  packageLicenses := by decide
  packageGroups := by decide
  licensesNodup := by decide
  licenses := by decide
  groupsNodup := by decide
  groups := by decide

/-- One package with one source, which is for an architecture that is listed twice. -/
def listedTwice : Push where
  metadata := {
    base := {
      str := fun field =>
        if field = "pkgbase" then some "foo"
        else if field = "pkgver" ∨ field = "pkgrel" then some "1"
        else none
      arr := fun field =>
        if field = "arch" then some ["x86_64", "x86_64"]
        else if field = "source_x86_64" then some ["foo.c"]
        else if field = "license" then some ["mit"]
        else none }
    packages := [("foo", { str := fun _ => none, arr := fun _ => none })]
    nodup := by decide }
  head := { id := "c0ffee", tree := fun _ => true }
  commits := .ok ()
  pkgbase := "foo"
  user := "alice"
  privileged := false
  now := 5

/-- The database after that push. -/
def listedTwiceDb : Db :=
  ((main asciiDigits plainUtils foldingConfig listedTwice).run (fun _ => none) licensedDb).2

theorem accepted_push_listedTwice :
    ∃ base db', listedTwiceDb = db' ∧ baseByName foldingConfig "foo" db' = some base ∧
      List.Forall₂ (Merged foldingConfig asciiDigits listedTwice.metadata)
        ((db'.packages.filter (·.packageBaseID == base.id)).map (readPackage db'))
        listedTwice.metadata.packages ∧
      restOf base.id db' = restOf base.id licensedDb ∧
      licensedDb.licenses <+: db'.licenses ∧ licensedDb.groups <+: db'.groups ∧
      ∀ p ∈ db'.packages, ∀ q ∈ db'.packages, foldingConfig.sameName p.name q.name = true →
        p.packageBaseID = q.packageBaseID :=
  accepted_push keyed_licensedDb (show UniqueNames foldingConfig licensedDb from
    List.pairwise_singleton _ _) (by decide +kernel)

/-- The push is accepted; its source is stored twice, and its license is called `MIT`. -/
theorem listed_twice_stored_twice :
    ((main asciiDigits plainUtils foldingConfig listedTwice).run (fun _ => none) licensedDb).1 =
        .ok () ∧
      ∃ p ∈ listedTwiceDb.packages,
        ¬(sourcesOf listedTwiceDb p.id).Nodup ∧ licensesOf listedTwiceDb p.id ≠ ["mit"] := by
  decide +kernel

end Aurweb.GitUpdateLegacy
