/-
What a run of `aurblup` makes of the table.

The three passes read one state of the table, so they are told apart by its pairs: a row that
stays has a pair of the sync databases, and is given the repository of the last of them; a row
that goes has none; a new row has a pair that no row has.  Everything that can go wrong goes wrong
at a new row, or at a repository that a row is moved to, and then the table stays as it was.
-/
import Aurweb.Aurblup
import Aurweb.Lib.Query

namespace Aurweb.Aurblup

variable {pf : Platform} {t t' : OfficialProviders} {dbs : List SyncDb}

/-! ### Names without constraints -/

theorem sub_false_append {name : List Char} (h : ∀ c ∈ name, isOperator c = false)
    (cs : List Char) : sub false (name ++ cs) = name ++ sub false cs := by
  induction name with
  | nil => rfl
  | cons c name ih =>
      rw [List.cons_append, sub, if_neg (by simp [h c (List.mem_cons_self ..)]),
        ih fun c hc => h c (List.mem_cons_of_mem _ hc)]
      rfl

theorem sub_true_of_oneLine {cs : List Char} (h : '\n' ∉ cs) : sub true cs = [] := by
  induction cs with
  | nil => rfl
  | cons c cs ih =>
      rw [List.mem_cons, not_or] at h
      rw [sub, if_neg (Ne.symm h.1)]
      exact ih h.2

/-- **The constraint is stripped**, and nothing else. -/
theorem provisionName_text (provision : Provision) :
    provisionName provision.text = provision.name := by
  unfold provisionName Provision.text
  rw [String.toList_append, sub_false_append provision.bare]
  have hrest : sub false provision.constraint.toList = [] := by
    have hmarked := provision.marked
    have hline := provision.oneLine
    cases hconstraint : provision.constraint.toList with
    | nil => rfl
    | cons c cs =>
        rw [hconstraint] at hmarked hline
        rw [List.mem_cons, not_or] at hline
        rw [sub, if_pos (hmarked c rfl)]
        exact sub_true_of_oneLine hline.2
  rw [hrest, List.append_nil, String.ofList_toList]

/-! ### The pairs of the sync databases -/

/-- A package of the repository has the pair: it provides itself, and what it lists. -/
def SyncDb.has (repo : SyncDb) (p : Pair) : Bool :=
  repo.pkgcache.any fun pkg => p.1 == pkg.name &&
    (p.2 == pkg.name || pkg.provides.any fun provision => p.2 == provision.name)

/-- The last repository that has the pair. -/
def lastRepo (dbs : List SyncDb) (p : Pair) : Option String :=
  (dbs.reverse.find? (·.has p)).map (·.name)

theorem mem_pairs {pkg : SyncPackage} {p : Pair} :
    p ∈ pkg.pairs ↔ p.1 = pkg.name ∧
      (p.2 = pkg.name ∨ ∃ provision ∈ pkg.provides, p.2 = provision.name) := by
  unfold SyncPackage.pairs
  rw [List.mem_cons, List.mem_map]
  constructor
  · rintro (rfl | ⟨provision, hprovision, rfl⟩)
    · exact ⟨rfl, Or.inl rfl⟩
    · exact ⟨rfl, Or.inr ⟨provision, hprovision, provisionName_text provision⟩⟩
  · rintro ⟨hname, hself | ⟨provision, hprovision, hprovides⟩⟩
    · exact Or.inl (Prod.ext hname hself)
    · refine Or.inr ⟨provision, hprovision, Prod.ext hname.symm ?_⟩
      rw [hprovides]
      exact provisionName_text provision

theorem has_iff {repo : SyncDb} {p : Pair} :
    repo.has p = true ↔ ∃ pkg ∈ repo.pkgcache, p ∈ pkg.pairs := by
  unfold SyncDb.has
  rw [List.any_eq_true]
  refine exists_congr fun pkg => and_congr_right fun _ => ?_
  rw [mem_pairs]
  simp

/-- What a repository adds to `repomap`. -/
def SyncDb.assignments (repo : SyncDb) : List (Pair × String) :=
  repo.pkgcache.flatMap fun pkg => pkg.pairs.map fun p => (p, repo.name)

theorem mem_assignments {repo : SyncDb} {p : Pair} :
    p ∈ repo.assignments.map (·.1) ↔ repo.has p = true := by
  rw [has_iff, SyncDb.assignments, List.map_flatMap, List.mem_flatMap]
  refine exists_congr fun pkg => and_congr_right fun _ => ?_
  rw [List.map_map]
  show p ∈ pkg.pairs.map (fun p => p) ↔ _
  rw [List.map_id']

theorem repomap_eq (dbs : List SyncDb) (p : Pair) : repomap dbs p = lastRepo dbs p := by
  induction dbs using List.reverseRecOn with
  | nil => rfl
  | append_singleton dbs repo ih =>
      have hassign : assignments (dbs ++ [repo]) = assignments dbs ++ repo.assignments := by
        unfold assignments
        rw [List.flatMap_append, List.flatMap_singleton]
        rfl
      have hname : ∀ x ∈ repo.assignments, x.2 = repo.name := by
        intro x hx
        obtain ⟨pkg, -, hx⟩ := List.mem_flatMap.mp hx
        obtain ⟨p, -, rfl⟩ := List.mem_map.mp hx
        rfl
      unfold repomap lastRepo
      rw [hassign, Dict.assign_append_of_eq hname, List.reverse_append]
      by_cases hhas : repo.has p = true
      · rw [if_pos (mem_assignments.mpr hhas)]
        simp [hhas]
      · rw [if_neg (mem_assignments.not.mpr hhas)]
        simp only [Bool.not_eq_true] at hhas
        simp only [List.reverse_singleton, List.singleton_append, List.find?_cons, hhas]
        exact ih

theorem mem_providers {p : Pair} : p ∈ providers dbs ↔ (lastRepo dbs p).isSome = true := by
  unfold providers assignments lastRepo
  rw [Option.isSome_map, List.find?_isSome]
  simp only [List.mem_map, List.mem_flatMap, List.mem_reverse, has_iff]
  constructor
  · rintro ⟨x, ⟨repo, hrepo, pkg, hpkg, q, hq, rfl⟩, rfl⟩
    exact ⟨repo, hrepo, pkg, hpkg, hq⟩
  · rintro ⟨repo, hrepo, pkg, hpkg, hp⟩
    exact ⟨(p, repo.name), ⟨repo, hrepo, pkg, hpkg, p, hp, rfl⟩, rfl⟩

/-! ### What is promised -/

/-- One row for each pair of the sync databases, with the last repository that has it, and no
other row. -/
def Mirrors (dbs : List SyncDb) (t : OfficialProviders) : Prop :=
  ∀ p, (t.rows.filter (·.pair = p)).map (·.repo) = (lastRepo dbs p).toList

/-- The keys of the table. -/
structure Indexed (pf : Platform) (t : OfficialProviders) : Prop where
  ids : (t.rows.map (·.id)).Nodup
  fresh : ∀ r ∈ t.rows, r.id < t.nextID
  keys : (t.rows.map fun r => pf.key r.pair).Nodup

/-- A pair of the sync databases that no row has. -/
def New (t : OfficialProviders) (dbs : List SyncDb) (p : Pair) : Prop :=
  (lastRepo dbs p).isSome = true ∧ p ∉ t.pairs

/-- The columns, the model and the unique index take what the sync databases ask for. -/
structure Storable (pf : Platform) (t : OfficialProviders) (dbs : List SyncDb) : Prop where
  nonempty : ∀ p, New t dbs p → p.1 ≠ "" ∧ p.2 ≠ "" ∧ lastRepo dbs p ≠ some ""
  fits : ∀ p, New t dbs p → fits p.1 = true ∧ fits p.2 = true
  repo : ∀ p repo, lastRepo dbs p = some repo →
    (∀ r ∈ t.rows, r.pair = p → r.repo ≠ repo) → Aurblup.fits repo = true
  apart : ∀ p q, New t dbs p → New t dbs q → pf.key p = pf.key q → p = q
  free : ∀ p, New t dbs p → ∀ r ∈ t.rows, pf.key r.pair ≠ pf.key p

/-! ### New rows -/

/-- The new pairs, in the order in which they are created. -/
def newPairs (pf : Platform) (t : OfficialProviders) (dbs : List SyncDb) : List Pair :=
  pf.order ((providers dbs).filter fun p => !t.pairs.contains p)

/-- What is created for a pair. -/
def created (dbs : List SyncDb) (p : Pair) : Pair × String := (p, (lastRepo dbs p).getD "")

theorem mem_newPairs {p : Pair} : p ∈ newPairs pf t dbs ↔ New t dbs p := by
  unfold newPairs New
  rw [pf.mem_order, List.mem_filter, mem_providers]
  simp

theorem create_eq_ok_iff {p : Pair} {repo : Option String} {x : Pair × String} :
    create p repo = .ok x ↔
      p.1 ≠ "" ∧ p.2 ≠ "" ∧ ∃ name, repo = some name ∧ name ≠ "" ∧ x = (p, name) := by
  unfold create
  by_cases hname : p.1 = ""
  · simp [hname]
  · rw [if_neg hname]
    cases repo with
    | none => simp
    | some repo =>
        by_cases hrepo : repo = ""
        · simp [hrepo]
        · by_cases hprovides : p.2 = ""
          · simp [hrepo, hprovides]
          · simp [hname, hrepo, hprovides, eq_comm]

/-- Every new pair has names, and so has its repository. -/
def Named (t : OfficialProviders) (dbs : List SyncDb) : Prop :=
  ∀ p, New t dbs p → p.1 ≠ "" ∧ p.2 ≠ "" ∧ lastRepo dbs p ≠ some ""

theorem addNew_eq_ok_iff {new : List (Pair × String)} :
    addNew pf t dbs = .ok new ↔ Named t dbs ∧ new = (newPairs pf t dbs).map (created dbs) := by
  have hcreate : ∀ p, New t dbs p → p.1 ≠ "" ∧ p.2 ≠ "" ∧ lastRepo dbs p ≠ some "" →
      create p (repomap dbs p) = .ok (created dbs p) := by
    intro p hp hnamed
    obtain ⟨repo, hrepo⟩ := Option.isSome_iff_exists.mp hp.1
    rw [create_eq_ok_iff, repomap_eq]
    refine ⟨hnamed.1, hnamed.2.1, repo, hrepo, ?_, ?_⟩
    · intro hempty
      exact hnamed.2.2 (by rw [hrepo, hempty])
    · rw [created, hrepo]
      rfl
  have hall : Named t dbs →
      addNew pf t dbs = .ok ((newPairs pf t dbs).map (created dbs)) := by
    intro hnamed
    apply Table.mapM_eq_ok_map
    intro p hp
    have hp := mem_newPairs.mp hp
    exact hcreate p hp (hnamed p hp)
  constructor
  · intro h
    have hnamed : Named t dbs := by
      intro p hp
      obtain ⟨x, -, -, hx⟩ := Table.exists_of_forall₂_left (Table.forall₂_of_mapM h)
        (mem_newPairs.mpr hp)
      obtain ⟨hname, hprovides, repo, hrepo, hne, -⟩ := create_eq_ok_iff.mp hx
      rw [repomap_eq] at hrepo
      refine ⟨hname, hprovides, fun hempty => hne ?_⟩
      rw [hrepo, Option.some.injEq] at hempty
      exact hempty
    rw [hall hnamed, Except.ok.injEq] at h
    exact ⟨hnamed, h.symm⟩
  · rintro ⟨hnamed, rfl⟩
    exact hall hnamed

/-- The rows of what is created, numbered from `n`. -/
def numbered : Nat → List (Pair × String) → List Provider
  | _, [] => []
  | n, x :: new =>
      { id := n, name := x.1.1, repo := x.2, provides := x.1.2 } :: numbered (n + 1) new

theorem map_numbered (n : Nat) (new : List (Pair × String)) :
    (numbered n new).map (fun r => (r.pair, r.repo)) = new := by
  induction new generalizing n with
  | nil => rfl
  | cons x new ih => rw [numbered, List.map_cons, ih]; rfl

theorem le_id_of_mem_numbered {n : Nat} {new : List (Pair × String)} {r : Provider}
    (h : r ∈ numbered n new) : n ≤ r.id := by
  induction new generalizing n with
  | nil => cases h
  | cons x new ih =>
      rcases List.mem_cons.mp h with rfl | h
      · exact Nat.le_refl _
      · exact Nat.le_of_succ_le (ih h)

theorem insert_eq_ok_iff {x : Pair × String} :
    t.insert pf x = .ok t' ↔ (fits x.1.1 = true ∧ fits x.2 = true ∧ fits x.1.2 = true) ∧
      (∀ r ∈ t.rows, pf.key r.pair ≠ pf.key x.1) ∧
      t' = { rows := t.rows ++ numbered t.nextID [x], nextID := t.nextID + 1 } := by
  unfold OfficialProviders.insert
  by_cases hfits : fits x.1.1 = true ∧ fits x.2 = true ∧ fits x.1.2 = true
  · rw [if_neg (by simp [hfits])]
    by_cases htaken : ∃ r ∈ t.rows, pf.key r.pair = pf.key x.1
    · rw [if_pos (by simpa using htaken)]
      constructor
      · intro h
        cases h
      · rintro ⟨-, hfree, -⟩
        obtain ⟨r, hr, heq⟩ := htaken
        exact absurd heq (hfree r hr)
    · rw [if_neg (by simpa using htaken), Except.ok.injEq]
      have hfree : ∀ r ∈ t.rows, pf.key r.pair ≠ pf.key x.1 := fun r hr heq => htaken ⟨r, hr, heq⟩
      exact ⟨fun h => ⟨hfits, hfree, h.symm⟩, fun h => h.2.2.symm⟩
  · rw [← and_assoc] at hfits
    rw [if_pos (by simpa only [Bool.not_eq_true', Bool.eq_false_iff, ne_eq, Bool.and_eq_true]
      using hfits)]
    constructor
    · intro h
      cases h
    · intro h
      exact absurd (and_assoc.mpr h.1) hfits

/-- **What the insertions need**, and what they make of the table. -/
theorem insertAll_eq_ok_iff {new : List (Pair × String)} :
    t.insertAll pf new = .ok t' ↔
      (∀ x ∈ new, (fits x.1.1 = true ∧ fits x.2 = true ∧ fits x.1.2 = true) ∧
        ∀ r ∈ t.rows, pf.key r.pair ≠ pf.key x.1) ∧
      (new.map fun x => pf.key x.1).Nodup ∧
      t' = { rows := t.rows ++ numbered t.nextID new, nextID := t.nextID + new.length } := by
  induction new generalizing t with
  | nil =>
      show Except.ok t = .ok t' ↔ _
      rw [Except.ok.injEq]
      constructor
      · rintro rfl
        refine ⟨by simp, List.nodup_nil, ?_⟩
        rw [numbered, List.append_nil]
        rfl
      · rintro ⟨-, -, rfl⟩
        rw [numbered, List.append_nil]
        rfl
  | cons x new ih =>
      show (t.insert pf x >>= fun t => t.insertAll pf new) = .ok t' ↔ _
      rw [Table.bind_eq_ok_iff, List.forall_mem_cons, List.map_cons, List.nodup_cons]
      constructor
      · rintro ⟨t₁, hinsert, hrest⟩
        obtain ⟨hfits, hfree, rfl⟩ := insert_eq_ok_iff.mp hinsert
        obtain ⟨hall, hnodup, rfl⟩ := ih.mp hrest
        refine ⟨⟨⟨hfits, hfree⟩, fun y hy => ⟨(hall y hy).1, fun r hr => ?_⟩⟩, ⟨?_, hnodup⟩, ?_⟩
        · exact (hall y hy).2 r (List.mem_append_left _ hr)
        · intro hmem
          obtain ⟨y, hy, heq⟩ := List.mem_map.mp hmem
          exact (hall y hy).2 _ (List.mem_append_right _ (List.mem_singleton_self _)) heq.symm
        · rw [List.append_assoc, List.length_cons, Nat.add_assoc, Nat.add_comm 1]
          rfl
      · rintro ⟨⟨⟨hfits, hfree⟩, hall⟩, ⟨hnotMem, hnodup⟩, rfl⟩
        refine ⟨_, insert_eq_ok_iff.mpr ⟨hfits, hfree, rfl⟩, ih.mpr ⟨?_, hnodup, ?_⟩⟩
        · intro y hy
          refine ⟨(hall y hy).1, fun r hr => ?_⟩
          rcases List.mem_append.mp hr with hr | hr
          · exact (hall y hy).2 r hr
          · rw [List.mem_singleton.mp hr]
            exact fun heq => hnotMem (List.mem_map.mpr ⟨y, hy, heq.symm⟩)
        · rw [List.append_assoc, List.length_cons, Nat.add_assoc, Nat.add_comm 1]
          rfl

/-! ### Rows that move and rows that go -/

def putRepo (r : Provider) (repo : Option String) : Provider :=
  { r with repo := repo.getD r.repo }

theorem setRepo_eq_ok_iff {rows rows' : List Provider} {change : Nat × Option String} :
    setRepo rows change = .ok rows' ↔ (∃ repo, change.2 = some repo ∧ fits repo = true) ∧
      rows' = Table.update (·.id == change.1) (putRepo · change.2) rows := by
  unfold setRepo
  cases hrepo : change.2 with
  | none => simp
  | some repo =>
      by_cases hfits : fits repo = true
      · dsimp only
        rw [if_pos hfits, Except.ok.injEq]
        exact ⟨fun h => ⟨⟨repo, rfl, hfits⟩, h.symm⟩, fun h => h.2.symm⟩
      · simp [hfits]

theorem setRepos_eq_ok_iff {rows rows' : List Provider} {changes : List (Nat × Option String)} :
    setRepos rows changes = .ok rows' ↔
      (∀ change ∈ changes, ∃ repo, change.2 = some repo ∧ fits repo = true) ∧
      rows' = rows.map (Table.writes Provider.id putRepo changes) := by
  rw [← Table.foldl_update]
  induction changes generalizing rows with
  | nil =>
      show Except.ok rows = .ok rows' ↔ _
      rw [Except.ok.injEq, List.foldl_nil]
      exact ⟨fun h => ⟨by simp, h.symm⟩, fun h => h.2.symm⟩
  | cons change changes ih =>
      show (setRepo rows change >>= fun rows => setRepos rows changes) = .ok rows' ↔ _
      rw [Table.bind_eq_ok_iff, List.forall_mem_cons, List.foldl_cons]
      constructor
      · rintro ⟨rows₁, hset, hrest⟩
        obtain ⟨hrepo, rfl⟩ := setRepo_eq_ok_iff.mp hset
        obtain ⟨hall, rfl⟩ := ih.mp hrest
        exact ⟨⟨hrepo, hall⟩, rfl⟩
      · rintro ⟨⟨hrepo, hall⟩, rfl⟩
        exact ⟨_, setRepo_eq_ok_iff.mpr ⟨hrepo, rfl⟩, ih.mpr ⟨hall, rfl⟩⟩

theorem not_contains_providers {p : Pair} :
    (!(providers dbs).contains p) = true ↔ lastRepo dbs p = none := by
  rw [Bool.not_eq_true', List.contains_eq_mem, decide_eq_false_iff_not, mem_providers,
    Option.not_isSome_iff_eq_none]

/-- A row goes just if no sync database has its pair. -/
theorem mem_deleteStale (ht : Indexed pf t) {r : Provider} (hr : r ∈ t.rows) :
    r.id ∈ deleteStale pf t dbs ↔ lastRepo dbs r.pair = none := by
  have hstale : ∀ p, p ∈ pf.order (t.pairs.filter fun p => !(providers dbs).contains p) ↔
      p ∈ t.pairs ∧ lastRepo dbs p = none := by
    intro p
    rw [pf.mem_order, List.mem_filter, not_contains_providers]
  unfold deleteStale
  rw [List.mem_flatMap]
  constructor
  · rintro ⟨p, hp, hmem⟩
    obtain ⟨hpair, hnone⟩ := (hstale p).mp hp
    obtain ⟨r₀, hr₀, rfl⟩ := List.mem_map.mp hpair
    obtain ⟨r', hr', hid⟩ := List.mem_map.mp hmem
    obtain ⟨hr', hkey⟩ := List.mem_filter.mp hr'
    -- the condition of the query finds the row itself, and the index no other
    rw [← List.inj_on_of_nodup_map ht.ids hr' hr hid,
      List.inj_on_of_nodup_map ht.keys hr' hr₀ (eq_of_beq hkey)]
    exact hnone
  · intro hnone
    refine ⟨r.pair, (hstale _).mpr ⟨List.mem_map_of_mem hr, hnone⟩, ?_⟩
    exact List.mem_map_of_mem (List.mem_filter.mpr ⟨hr, beq_self_eq_true _⟩)

theorem not_contains_deleteStale (ht : Indexed pf t) {r : Provider} (hr : r ∈ t.rows) :
    (!(deleteStale pf t dbs).contains r.id) = true ↔ (lastRepo dbs r.pair).isSome = true := by
  rw [Bool.not_eq_true', List.contains_eq_mem, decide_eq_false_iff_not, mem_deleteStale ht hr,
    Option.isSome_iff_ne_none]

/-- The changes that are written. -/
def changes (pf : Platform) (t : OfficialProviders) (dbs : List SyncDb) :
    List (Nat × Option String) :=
  (rehome t dbs).filter fun change => !(deleteStale pf t dbs).contains change.1

theorem mem_changes (ht : Indexed pf t) {change : Nat × Option String} :
    change ∈ changes pf t dbs ↔ ∃ r ∈ t.rows, ∃ repo, lastRepo dbs r.pair = some repo ∧
      r.repo ≠ repo ∧ change = (r.id, some repo) := by
  unfold changes rehome
  rw [List.mem_filter, List.mem_map]
  constructor
  · rintro ⟨⟨r, hr, rfl⟩, hkept⟩
    obtain ⟨hr, hmoved⟩ := List.mem_filter.mp hr
    obtain ⟨repo, hrepo⟩ := Option.isSome_iff_exists.mp ((not_contains_deleteStale ht hr).mp hkept)
    rw [repomap_eq, hrepo] at hmoved ⊢
    refine ⟨r, hr, repo, hrepo, ?_, rfl⟩
    simpa using hmoved
  · rintro ⟨r, hr, repo, hrepo, hmoved, rfl⟩
    refine ⟨⟨r, List.mem_filter.mpr ⟨hr, ?_⟩, ?_⟩, ?_⟩
    · rw [repomap_eq, hrepo]
      simpa using hmoved
    · rw [repomap_eq, hrepo]
    · rw [not_contains_deleteStale ht hr, hrepo]
      rfl

/-- A row of a pair that the sync databases have. -/
def rehomed (dbs : List SyncDb) (r : Provider) : Provider :=
  { r with repo := (lastRepo dbs r.pair).getD r.repo }

theorem writes_changes (ht : Indexed pf t) {r : Provider} (hr : r ∈ t.rows) :
    Table.writes Provider.id putRepo (changes pf t dbs) r = rehomed dbs r := by
  have hrow : ∀ r' ∈ t.rows, r'.id = r.id → r' = r := fun r' hr' hid =>
    List.inj_on_of_nodup_map ht.ids hr' hr hid
  by_cases hmoved : ∃ repo, lastRepo dbs r.pair = some repo ∧ r.repo ≠ repo
  · obtain ⟨repo, hrepo, hne⟩ := hmoved
    have hkey : ∀ r repo, Provider.id (putRepo r repo) = Provider.id r := fun _ _ => rfl
    have hput : ∀ r, putRepo (putRepo r (some repo)) (some repo) = putRepo r (some repo) :=
      fun _ => rfl
    rw [Table.writes_of_same (b := some repo) hkey hput, putRepo, rehomed, hrepo]
    · intro change hchange hid
      obtain ⟨r', hr', repo', hrepo', -, rfl⟩ := (mem_changes ht).mp hchange
      rw [hrow r' hr' hid] at hrepo'
      rw [← hrepo', hrepo]
    · exact List.mem_map.mpr ⟨_, (mem_changes ht).mpr ⟨r, hr, repo, hrepo, hne, rfl⟩, rfl⟩
  · rw [Table.writes_of_notMem]
    · unfold rehomed
      cases hrepo : lastRepo dbs r.pair with
      | none => rfl
      | some repo =>
          have hsame : r.repo = repo := by
            by_contra hne
            exact hmoved ⟨repo, hrepo, hne⟩
          rw [Option.getD_some, ← hsame]
    · intro hmem
      obtain ⟨change, hchange, hid⟩ := List.mem_map.mp hmem
      obtain ⟨r', hr', repo, hrepo, hne, rfl⟩ := (mem_changes ht).mp hchange
      rw [hrow r' hr' hid] at hrepo hne
      exact hmoved ⟨repo, hrepo, hne⟩

/-! ### The table after a run -/

/-- The rows that stay, at home, and the new ones. -/
def mirrored (pf : Platform) (t : OfficialProviders) (dbs : List SyncDb) : OfficialProviders where
  rows := (t.rows.filter fun r => (lastRepo dbs r.pair).isSome).map (rehomed dbs) ++
    numbered t.nextID ((newPairs pf t dbs).map (created dbs))
  nextID := t.nextID + (newPairs pf t dbs).length

theorem delete_rows (ht : Indexed pf t) (new : List (Pair × String)) :
    Table.delete (fun r => (deleteStale pf t dbs).contains r.id)
        (t.rows.map (rehomed dbs) ++ numbered t.nextID new) =
      (t.rows.filter fun r => (lastRepo dbs r.pair).isSome).map (rehomed dbs) ++
        numbered t.nextID new := by
  unfold Table.delete
  rw [List.filter_append, List.filter_map]
  congr 1
  · congr 1
    refine List.filter_congr fun r hr => ?_
    show (!(deleteStale pf t dbs).contains r.id) = _
    rw [Bool.eq_iff_iff, not_contains_deleteStale ht hr]
  · rw [List.filter_eq_self]
    intro r hr
    dsimp only
    rw [Bool.not_eq_true', List.contains_eq_mem, decide_eq_false_iff_not]
    intro hmem
    obtain ⟨p, -, hmem⟩ := List.mem_flatMap.mp hmem
    obtain ⟨r', hr', hid⟩ := List.mem_map.mp hmem
    have hlt := ht.fresh r' (List.mem_filter.mp hr').1
    have hle := le_id_of_mem_numbered hr
    omega

/-- What the statements of the flush need. -/
theorem storable_iff (ht : Indexed pf t) : Storable pf t dbs ↔ Named t dbs ∧
    (∀ change ∈ changes pf t dbs, ∃ repo, change.2 = some repo ∧ fits repo = true) ∧
    (∀ x ∈ (newPairs pf t dbs).map (created dbs),
      (fits x.1.1 = true ∧ fits x.2 = true ∧ fits x.1.2 = true) ∧
        ∀ r ∈ t.rows.map (rehomed dbs), pf.key r.pair ≠ pf.key x.1) ∧
    (((newPairs pf t dbs).map (created dbs)).map fun x => pf.key x.1).Nodup := by
  have hkeys : ((newPairs pf t dbs).map (created dbs)).map (fun x => pf.key x.1) =
      (newPairs pf t dbs).map pf.key := by
    rw [List.map_map]
    rfl
  rw [hkeys]
  constructor
  · intro h
    refine ⟨h.nonempty, ?_, ?_, ?_⟩
    · intro change hchange
      obtain ⟨r, hr, repo, hrepo, hne, rfl⟩ := (mem_changes ht).mp hchange
      refine ⟨repo, rfl, h.repo r.pair repo hrepo ?_⟩
      intro r' hr' hpair
      rw [List.inj_on_of_nodup_map ht.keys hr' hr (congrArg pf.key hpair)]
      exact hne
    · intro x hx
      obtain ⟨p, hp, rfl⟩ := List.mem_map.mp hx
      have hp := mem_newPairs.mp hp
      obtain ⟨repo, hrepo⟩ := Option.isSome_iff_exists.mp hp.1
      refine ⟨⟨(h.fits p hp).1, ?_, (h.fits p hp).2⟩, ?_⟩
      · rw [created, hrepo]
        apply h.repo p repo hrepo
        intro r hr hpair
        exact absurd (List.mem_map.mpr ⟨r, hr, hpair⟩) hp.2
      · intro r' hr'
        obtain ⟨r, hr, rfl⟩ := List.mem_map.mp hr'
        exact h.free p hp r hr
    · refine List.Nodup.map_on ?_ (pf.nodup_order _)
      intro p hp q hq hkey
      exact h.apart p q (mem_newPairs.mp hp) (mem_newPairs.mp hq) hkey
  · rintro ⟨hnamed, hchanges, hnew, hnodup⟩
    have hcreated : ∀ p, New t dbs p → created dbs p ∈ (newPairs pf t dbs).map (created dbs) :=
      fun p hp => List.mem_map_of_mem (mem_newPairs.mpr hp)
    refine ⟨hnamed, ?_, ?_, ?_, ?_⟩
    · intro p hp
      obtain ⟨⟨hname, -, hprovides⟩, -⟩ := hnew _ (hcreated p hp)
      exact ⟨hname, hprovides⟩
    · intro p repo hrepo hmoved
      by_cases hold : p ∈ t.pairs
      · obtain ⟨r, hr, rfl⟩ := List.mem_map.mp hold
        obtain ⟨repo', hrepo', hfits⟩ := hchanges (r.id, some repo)
          ((mem_changes ht).mpr ⟨r, hr, repo, hrepo, hmoved r hr rfl, rfl⟩)
        rw [Option.some.inj hrepo']
        exact hfits
      · have hp : New t dbs p := ⟨by rw [hrepo]; rfl, hold⟩
        obtain ⟨⟨-, hfits, -⟩, -⟩ := hnew _ (hcreated p hp)
        rw [created, hrepo] at hfits
        exact hfits
    · intro p q hp hq hkey
      exact List.inj_on_of_nodup_map hnodup (mem_newPairs.mpr hp) (mem_newPairs.mpr hq) hkey
    · intro p hp r hr
      exact (hnew _ (hcreated p hp)).2 (rehomed dbs r) (List.mem_map_of_mem hr)

/-- **When a run gets through, and what it leaves.** -/
theorem main_eq_ok_iff (ht : Indexed pf t) :
    main pf t dbs = .ok t' ↔ Storable pf t dbs ∧ t' = mirrored pf t dbs := by
  have hwritten : t.rows.map (Table.writes Provider.id putRepo
      ((rehome t dbs).filter fun change => !(deleteStale pf t dbs).contains change.1)) =
      t.rows.map (rehomed dbs) :=
    List.map_congr_left fun r hr => writes_changes ht hr
  unfold main OfficialProviders.flush
  rw [storable_iff ht, Table.bind_eq_ok_iff]
  simp only [Table.bind_eq_ok_iff]
  constructor
  · rintro ⟨new, hnew, rows, hrows, t₁, ht₁, hdelete⟩
    obtain ⟨hnamed, rfl⟩ := addNew_eq_ok_iff.mp hnew
    obtain ⟨hchanges, rfl⟩ := setRepos_eq_ok_iff.mp hrows
    obtain ⟨hall, hnodup, rfl⟩ := insertAll_eq_ok_iff.mp ht₁
    dsimp only at hall hdelete
    rw [hwritten] at hall hdelete
    rw [delete_rows ht, List.length_map] at hdelete
    exact ⟨⟨hnamed, hchanges, hall, hnodup⟩, (Except.ok.inj hdelete).symm⟩
  · rintro ⟨⟨hnamed, hchanges, hall, hnodup⟩, rfl⟩
    refine ⟨_, addNew_eq_ok_iff.mpr ⟨hnamed, rfl⟩, _, setRepos_eq_ok_iff.mpr ⟨hchanges, rfl⟩,
      _, insertAll_eq_ok_iff.mpr ⟨?_, hnodup, rfl⟩, ?_⟩
    · dsimp only
      rw [hwritten]
      exact hall
    · dsimp only
      rw [hwritten, delete_rows ht, List.length_map]
      rfl

/-- What `Mirrors` comes to: different pairs, each with its last repository, and none missing. -/
theorem mirrors_iff : Mirrors dbs t ↔ t.pairs.Nodup ∧
    (∀ r ∈ t.rows, lastRepo dbs r.pair = some r.repo) ∧
    ∀ p, (lastRepo dbs p).isSome = true → p ∈ t.pairs := by
  constructor
  · intro h
    refine ⟨?_, ?_, ?_⟩
    · rw [List.nodup_iff_count_le_one]
      intro p
      have hlength := congrArg List.length (h p)
      have hcount : t.pairs.count p = (t.rows.filter (·.pair = p)).length := by
        rw [OfficialProviders.pairs, List.count, List.countP_map, List.countP_eq_length_filter]
        congr 1
        exact List.filter_congr fun r _ => by rw [Bool.eq_iff_iff]; simp
      rw [List.length_map] at hlength
      rw [hcount, hlength]
      cases lastRepo dbs p <;> simp
    · intro r hr
      have hmem : r.repo ∈ (lastRepo dbs r.pair).toList := by
        rw [← h r.pair]
        exact List.mem_map_of_mem (List.mem_filter.mpr ⟨hr, by simp⟩)
      rwa [Option.mem_toList] at hmem
    · intro p hp
      obtain ⟨repo, hrepo⟩ := Option.isSome_iff_exists.mp hp
      have hmem : repo ∈ (t.rows.filter (·.pair = p)).map (·.repo) := by
        rw [h p, hrepo]
        exact List.mem_singleton_self _
      obtain ⟨r, hr, -⟩ := List.mem_map.mp hmem
      obtain ⟨hr, hpair⟩ := List.mem_filter.mp hr
      exact List.mem_map.mpr ⟨r, hr, of_decide_eq_true hpair⟩
  · rintro ⟨hnodup, hrepo, hall⟩ p
    cases hlast : lastRepo dbs p with
    | none =>
        rw [List.filter_eq_nil_iff.mpr]
        · rfl
        · intro r hr hpair
          rw [← of_decide_eq_true hpair, hrepo r hr] at hlast
          cases hlast
    | some repo =>
        obtain ⟨r, hr, rfl⟩ := List.mem_map.mp (hall p (by rw [hlast]; rfl))
        rw [hrepo r hr, Option.some.injEq] at hlast
        have hone : t.rows.filter (·.pair = r.pair) = [r] := by
          rw [← Query.filter_key_eq_singleton hnodup hr]
          refine List.filter_congr fun r' _ => ?_
          by_cases hpair : r'.pair = r.pair <;> simp [hpair]
        rw [hone, ← hlast]
        rfl

theorem pairs_mirrored : (mirrored pf t dbs).pairs =
    (t.rows.filter fun r => (lastRepo dbs r.pair).isSome).map Provider.pair ++
      newPairs pf t dbs := by
  have hnew := congrArg (List.map Prod.fst)
    (map_numbered t.nextID ((newPairs pf t dbs).map (created dbs)))
  rw [List.map_map, List.map_map] at hnew
  show List.map _ (_ ++ _) = _
  rw [List.map_append, List.map_map]
  congr 1
  exact hnew.trans (List.map_id _)

/-- **The table is what the sync databases say.** -/
theorem mirrors_mirrored (ht : Indexed pf t) : Mirrors dbs (mirrored pf t dbs) := by
  rw [mirrors_iff, pairs_mirrored]
  have hpairs : t.pairs.Nodup := List.Nodup.of_map pf.key (by
    rw [OfficialProviders.pairs, List.map_map]
    exact ht.keys)
  refine ⟨List.nodup_append.mpr ⟨?_, pf.nodup_order _, ?_⟩, ?_, ?_⟩
  · exact hpairs.sublist ((List.filter_sublist ..).map _)
  · intro p hp q hq hpq
    obtain ⟨r, hr, rfl⟩ := List.mem_map.mp hp
    apply (mem_newPairs.mp hq).2
    rw [← hpq]
    exact List.mem_map_of_mem (List.mem_filter.mp hr).1
  · intro r' hr'
    rcases List.mem_append.mp hr' with hr' | hr'
    · obtain ⟨r, hr, rfl⟩ := List.mem_map.mp hr'
      obtain ⟨repo, hrepo⟩ := Option.isSome_iff_exists.mp (List.mem_filter.mp hr).2
      show lastRepo dbs r.pair = some ((lastRepo dbs r.pair).getD r.repo)
      rw [hrepo]
      rfl
    · have hmem : (r'.pair, r'.repo) ∈ (newPairs pf t dbs).map (created dbs) := by
        rw [← map_numbered t.nextID ((newPairs pf t dbs).map (created dbs))]
        exact List.mem_map.mpr ⟨r', hr', rfl⟩
      obtain ⟨p, hp, heq⟩ := List.mem_map.mp hmem
      obtain ⟨rfl, hrepo⟩ := Prod.mk.inj heq
      obtain ⟨repo, hlast⟩ := Option.isSome_iff_exists.mp (mem_newPairs.mp hp).1
      rw [hlast] at hrepo ⊢
      rw [← hrepo]
      rfl
  · intro p hp
    by_cases hknown : p ∈ t.pairs
    · obtain ⟨r, hr, rfl⟩ := List.mem_map.mp hknown
      exact List.mem_append_left _ (List.mem_map_of_mem (List.mem_filter.mpr ⟨hr, hp⟩))
    · exact List.mem_append_right _ (mem_newPairs.mpr ⟨hp, hknown⟩)

/-- **A table that is as the sync databases say stays as it is.** -/
theorem main_of_mirrors (h : Mirrors dbs t) : main pf t dbs = .ok t := by
  obtain ⟨-, hrepo, hall⟩ := mirrors_iff.mp h
  have hnil : ∀ l : List Pair, (∀ p, p ∉ l) → pf.order l = [] := by
    intro l hl
    rw [List.eq_nil_iff_forall_not_mem]
    exact fun p hp => hl p (pf.mem_order.mp hp)
  have hnew : newPairs pf t dbs = [] := by
    rw [List.eq_nil_iff_forall_not_mem]
    intro p hp
    exact (mem_newPairs.mp hp).2 (hall p (mem_newPairs.mp hp).1)
  have hadd : addNew pf t dbs = .ok [] := by
    show (newPairs pf t dbs).mapM _ = _
    rw [hnew]
    rfl
  have hstale : deleteStale pf t dbs = [] := by
    unfold deleteStale
    rw [hnil]
    · rfl
    · intro p hp
      obtain ⟨hp, hgone⟩ := List.mem_filter.mp hp
      obtain ⟨r, hr, rfl⟩ := List.mem_map.mp hp
      rw [not_contains_providers, hrepo r hr] at hgone
      cases hgone
  have hmoved : rehome t dbs = [] := by
    unfold rehome
    rw [List.map_eq_nil_iff, List.filter_eq_nil_iff]
    intro r hr
    rw [repomap_eq, hrepo r hr]
    simp
  have hkept : Table.delete (fun r => ([] : List Nat).contains r.id) t.rows = t.rows :=
    Table.delete_eq_self fun _ _ => rfl
  unfold main
  rw [hadd, hstale, hmoved]
  show Except.ok { t with rows := Table.delete (fun r => ([] : List Nat).contains r.id) t.rows } = _
  rw [hkept]

theorem aurblup_of_storable (ht : Indexed pf t) (h : Storable pf t dbs) :
    aurblup pf t dbs = mirrored pf t dbs := by
  unfold aurblup
  rw [(main_eq_ok_iff ht).mpr ⟨h, rfl⟩]

/--
**The table follows the repositories**: where the columns and the index take what is new, a run
leaves one row for each pair of the sync databases, with the last repository that has it, and no
other, and a second run changes nothing; elsewhere the run raises and changes nothing.
-/
theorem aurblup_mirrors (pf : Platform) (t : OfficialProviders) (dbs : List SyncDb)
    (ht : Indexed pf t) :
    (Storable pf t dbs → Mirrors dbs (aurblup pf t dbs) ∧
      aurblup pf (aurblup pf t dbs) dbs = aurblup pf t dbs) ∧
    (¬Storable pf t dbs → (∃ e, main pf t dbs = .error e) ∧ aurblup pf t dbs = t) := by
  constructor
  · intro h
    have hmirrors : Mirrors dbs (mirrored pf t dbs) := mirrors_mirrored ht
    rw [aurblup_of_storable ht h]
    refine ⟨hmirrors, ?_⟩
    unfold aurblup
    rw [main_of_mirrors hmirrors]
  · intro h
    cases hmain : main pf t dbs with
    | ok t' => exact absurd ((main_eq_ok_iff ht).mp hmain).1 h
    | error e =>
        refine ⟨⟨e, rfl⟩, ?_⟩
        unfold aurblup
        rw [hmain]

/-- A server that tells all names apart, and an interpreter that keeps the order of the list. -/
def plainPlatform : Platform where
  collate := id
  order := List.dedup
  mem_order := List.mem_dedup
  nodup_order := List.nodup_dedup

/-- A package that provides itself and this. -/
def providing (name provides constraint : String)
    (h : (∀ c ∈ provides.toList, isOperator c = false) ∧
      (∀ c ∈ constraint.toList.head?, isOperator c = true) ∧ '\n' ∉ constraint.toList) :
    SyncPackage where
  name := name
  provides := [⟨provides, constraint, h.1, h.2.1, h.2.2⟩]

/-- One package in two repositories. -/
def twoRepos : List SyncDb :=
  [⟨"extra-testing", [providing "foo" "libfoo.so" "=1-64" (by simp [isOperator])]⟩,
    ⟨"extra", [providing "foo" "foo-bin" "" (by simp [isOperator])]⟩]

/-- A row that stays, one that has been moved and one that has gone. -/
def staleTable : OfficialProviders where
  rows := [⟨1, "foo", "extra", "foo"⟩, ⟨2, "foo", "core", "foo-bin"⟩, ⟨3, "bar", "core", "bar"⟩]
  nextID := 4

def freshTable : OfficialProviders where
  rows := [⟨1, "foo", "extra", "foo"⟩, ⟨2, "foo", "extra", "foo-bin"⟩,
    ⟨4, "foo", "extra-testing", "libfoo.so"⟩]
  nextID := 5

theorem aurblup_mirrors_twoRepos :
    aurblup plainPlatform staleTable twoRepos = freshTable ∧
      Mirrors twoRepos (aurblup plainPlatform staleTable twoRepos) ∧
      aurblup plainPlatform (aurblup plainPlatform staleTable twoRepos) twoRepos =
        aurblup plainPlatform staleTable twoRepos := by
  have hindexed : Indexed plainPlatform staleTable := ⟨by decide, by decide, by decide⟩
  have hmain : main plainPlatform staleTable twoRepos = .ok freshTable := by decide +kernel
  have hstorable := ((main_eq_ok_iff hindexed).mp hmain).1
  exact ⟨by decide +kernel, (aurblup_mirrors plainPlatform _ _ hindexed).1 hstorable⟩

/-- A provided name that is longer than the column. -/
def longName : List SyncDb :=
  [⟨"extra", [providing "foo" "aaaaaaaaaaaaaaaaaaaaaaaaaaaaaaaaaaaaaaaaaaaaaaaaaaaaaaaaaaaaaaaaa" ""
    (by simp [isOperator])]⟩]

/-- The run raises, and nothing of the repository gets into the table. -/
theorem not_mirrors_longName : ¬Mirrors longName (aurblup plainPlatform {} longName) := by
  intro h
  have hrow := h ("foo", "foo")
  revert hrow
  decide +kernel

end Aurweb.Aurblup
