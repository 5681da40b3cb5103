/-
What the search page lists.

Every row of a search stems from one package, so the page lists a package as often as rows stem
from it: `Stems` writes the query as the list of what stems from each.  The filters leave one row
or none.  The search for keywords joins several rows and groups them.  The two searches for
comaintainers join them and group nothing, and list a package once for every row they see
(`rowsSeen`).
-/
import Aurweb.WebSearch
import Aurweb.Proofs.RpcSearch

namespace Aurweb.Search

open Rpc (isMatch maintainedBy Gives)

/-! ### What is searched for -/

/-- The package is what the keywords ask for. -/
def matchesKeywords (d : Dbms) (db : Db) (params : Params) (p : Package) : Bool :=
  match params.seB with
  | "m" => isMatch d db "maintainer" (d.strip params.k) p
  | "c" => isMatch d db "comaintainers" (d.strip params.k) p
  | "M" =>
      isMatch d db "comaintainers" (d.strip params.k) p || maintainedBy d db (d.strip params.k) p
  | "s" => isMatch d db "submitter" (d.strip params.k) p
  | "k" => (words params.k).any fun word => isMatch d db "keywords" (d.lower word) p
  | "n" => (words params.k).all fun word => isMatch d db "name" word p
  | "b" => (words params.k).all fun word => d.contains word (baseOf db p).name
  | "N" => (words params.k).all fun word => d.cfg.sameName p.name word
  | "B" => (words params.k).all fun word => d.cfg.sameName (baseOf db p).name word
  | _ => (words params.k).all fun word => isMatch d db "name-desc" word p

/-- The base is what the buttons ask for. -/
def matchesFlags (params : Params) (b : PackageBase) : Bool :=
  (match params.outdated.filter (· ≠ "") with
    | none => true
    | some flagged => if flagged = "on" then b.outOfDateTS.isSome else b.outOfDateTS.isNone) &&
  (params.submit ≠ "Orphans" || b.maintainerUID.isNone)

/-- A package that the search is for. -/
def isListed (d : Dbms) (db : Db) (params : Params) (p : Package) : Bool :=
  matchesKeywords d db params p && matchesFlags params (baseOf db p)

def comaintainersOf (db : Db) (p : Package) : List PackageComaintainer :=
  db.packageComaintainers.filter (·.packageBaseID == p.packageBaseID)

/-- The rows that make somebody of that name a comaintainer. -/
def comaintainersNamed (d : Dbms) (db : Db) (arg : String) (p : Package) :
    List PackageComaintainer :=
  (comaintainersOf db p).filter fun c =>
    db.users.any fun u => d.cfg.sameName u.username arg && u.id == c.usersID

/-- The rows of comaintainers that the search meets at a package. -/
def rowsSeen (d : Dbms) (db : Db) (params : Params) (p : Package) : List PackageComaintainer :=
  match params.seB with
  | "c" => comaintainersNamed d db (d.strip params.k) p
  | "M" =>
      if maintainedBy d db (d.strip params.k) p then comaintainersOf db p
      else comaintainersNamed d db (d.strip params.k) p
  | _ => []

/-! ### The rows of a package -/

/-- The query has these rows for each package. -/
structure Stems (db : Db) (s : PackageSearch) (f : Package → List Row) : Prop where
  query : s.query = db.packages.flatMap f
  ungrouped : s.groupedByName = false
  package : ∀ p ∈ db.packages, ∀ r ∈ f p, r.package = p
  base : ∀ p ∈ db.packages, ∀ r ∈ f p, r.base = baseOf db p

variable {d : Dbms} {db : Db} {params : Params} {s : PackageSearch} {f : Package → List Row}
  {uid : Nat}

theorem applyFlags_query (params : Params) (s : PackageSearch) :
    (applyFlags params s).query = s.query.filter fun r => matchesFlags params r.base := by
  unfold applyFlags matchesFlags
  by_cases horphans : params.submit = "Orphans"
  · rw [if_pos horphans]
    cases params.outdated.filter (· ≠ "") with
    | none => simp [PackageSearch.filter, horphans]
    | some flagged =>
        dsimp only
        split_ifs <;> simp [PackageSearch.filter, horphans, Bool.and_comm]
  · rw [if_neg horphans]
    cases params.outdated.filter (· ≠ "") with
    | none => simp [horphans]
    | some flagged =>
        dsimp only
        split_ifs <;> simp [PackageSearch.filter, horphans]

theorem applyFlags_groupedByName (params : Params) (s : PackageSearch) :
    (applyFlags params s).groupedByName = s.groupedByName := by
  unfold applyFlags
  cases params.outdated.filter (· ≠ "") with
  | none => split_ifs <;> rfl
  | some flagged =>
      dsimp only
      split_ifs <;> rfl

/-- What is listed of a search that groups nothing. -/
theorem Stems.perm_iff (h : Catalogue d.cfg db) (hs : Stems db s f) {P : Package → Bool}
    (hP : ∀ p ∈ db.packages, f p ≠ [] ↔ P p = true) :
    (((applyFlags params s).results d).map (·.package)).Perm
        (db.packages.filter fun p => P p && matchesFlags params (baseOf db p)) ↔
      ∀ p ∈ db.packages, (P p && matchesFlags params (baseOf db p)) = true →
        (f p).length ≤ 1 := by
  have hquery : (applyFlags params s).results d =
      db.packages.flatMap fun p => (f p).filter fun r => matchesFlags params r.base := by
    rw [PackageSearch.results, applyFlags_groupedByName, hs.ungrouped,
      if_neg Bool.false_ne_true, applyFlags_query, hs.query, List.filter_flatMap]
  have hlength : ∀ p ∈ db.packages, ((f p).filter fun r => matchesFlags params r.base).length =
      if matchesFlags params (baseOf db p) then (f p).length else 0 := by
    intro p hp
    by_cases hflags : matchesFlags params (baseOf db p) = true
    · rw [if_pos hflags, List.filter_eq_self.mpr]
      intro r hr
      rw [hs.base p hp r hr]
      exact hflags
    · rw [if_neg hflags, List.filter_eq_nil_iff.mpr]
      · rfl
      · intro r hr
        rw [hs.base p hp r hr]
        exact hflags
  rw [hquery, Query.perm_filter_iff h.packages_nodup]
  · refine forall_congr' fun p => forall_congr' fun hp => ?_
    rw [hlength p hp]
    by_cases hflags : matchesFlags params (baseOf db p) = true
    · rw [if_pos hflags, hflags, Bool.and_true]
      by_cases hPp : P p = true
      · have hpos : 0 < (f p).length := List.length_pos_iff.mpr ((hP p hp).mpr hPp)
        simp only [hPp, if_true, forall_const]
        omega
      · have hnil : f p = [] := not_not.mp fun hne => hPp ((hP p hp).mp hne)
        simp [hPp, hnil]
    · simp [hflags]
  · intro p hp r hr
    exact hs.package p hp r (List.mem_of_mem_filter hr)

/-! ### The filters -/

/-- The search of a visitor, with the maintainers joined. -/
def visited (db : Db) (uid : Nat) : PackageSearch := (PackageSearch.init db (some uid)).joinUser db

theorem stems_filter (h : Catalogue d.cfg db) (uid : Nat) (q : Row → Bool) :
    Stems db ((visited db uid).filter q) fun p =>
      if q (visitorRow db uid p) then [visitorRow db uid p] else [] where
  query := by
    show (visited db uid).query.filter q = _
    rw [visited, h.visitor_query, List.map_eq_flatMap, List.filter_flatMap]
    refine List.flatMap_congr fun p _ => ?_
    rw [List.filter_singleton, Bool.cond_eq_ite]
  ungrouped := rfl
  package p _ r hr := by
    split_ifs at hr
    · rw [List.mem_singleton.mp hr]
      rfl
    · exact absurd hr List.not_mem_nil
  base p _ r hr := by
    split_ifs at hr
    · rw [List.mem_singleton.mp hr]
      rfl
    · exact absurd hr List.not_mem_nil

/-- A search that only filters lists each matching package once. -/
theorem perm_of_filter (h : Catalogue d.cfg db) {q : Row → Bool} {P : Package → Bool}
    (hq : ∀ p ∈ db.packages, q (visitorRow db uid p) = P p) :
    (((applyFlags params ((visited db uid).filter q)).results d).map (·.package)).Perm
      (db.packages.filter fun p => P p && matchesFlags params (baseOf db p)) := by
  rw [(stems_filter h uid q).perm_iff h]
  · intro p _ _
    split_ifs
    · exact le_refl 1
    · exact Nat.zero_le 1
  · intro p hp
    rw [hq p hp]
    split_ifs with hP <;> simp [hP]

/-- The filter that a word of the other searches adds. -/
def wordFilter (d : Dbms) (seB word : String) (r : Row) : Bool :=
  match seB with
  | "n" => d.contains word r.package.name
  | "b" => d.contains word r.base.name
  | "N" => d.cfg.sameName r.package.name word
  | "B" => d.cfg.sameName r.base.name word
  | _ => d.contains word r.package.name || nullable r.package.description (d.contains word)

theorem searchBy_word {seB : String} (hseB : seB ∉ ["m", "c", "M", "s"]) (word : String)
    (s : PackageSearch) :
    s.searchBy d db seB word = (s.joinUser db).filter (wordFilter d seB word) := by
  unfold PackageSearch.searchBy
  split
  case h_9 hn hb hN hB _ _ _ _ =>
    have hword : wordFilter d seB word = fun r =>
        d.contains word r.package.name || nullable r.package.description (d.contains word) := by
      funext r
      simp only [wordFilter]
    rw [hword]
    rfl
  all_goals first | rfl | simp at hseB

/-- One filter for all the words. -/
theorem foldl_searchBy {seB : String} (hseB : seB ∉ ["m", "c", "M", "s"]) (ws : List String)
    (q : Row → Bool) :
    ws.foldl (fun s word => s.searchBy d db seB word) ((visited db uid).filter q) =
      (visited db uid).filter fun r => q r && ws.all fun word => wordFilter d seB word r := by
  induction ws generalizing q with
  | nil => simp [PackageSearch.filter]
  | cons word ws ih =>
      have hstep : ((visited db uid).filter q).searchBy d db seB word =
          (visited db uid).filter fun r => q r && wordFilter d seB word r := by
        rw [searchBy_word hseB]
        show ((visited db uid).filter q).filter _ = _
        simp only [PackageSearch.filter, List.filter_filter, Bool.and_comm]
      rw [List.foldl_cons, hstep, ih]
      simp only [List.all_cons, Bool.and_assoc]

theorem words_ne_nil (k : String) : words k ≠ [] := by
  unfold words
  simp [List.splitOn_ne_nil]

theorem foldl_searchBy_init {seB : String} (hseB : seB ∉ ["m", "c", "M", "s"]) {ws : List String}
    (hne : ws ≠ []) :
    ws.foldl (fun s word => s.searchBy d db seB word) (PackageSearch.init db (some uid)) =
      (visited db uid).filter fun r => ws.all fun word => wordFilter d seB word r := by
  obtain ⟨word, ws, rfl⟩ := List.exists_cons_of_ne_nil hne
  rw [List.foldl_cons, searchBy_word hseB]
  show ws.foldl _ ((visited db uid).filter _) = _
  rw [foldl_searchBy hseB]
  simp only [List.all_cons]

/-! ### The fields -/

/-- Each matching package is listed once. -/
abbrev ListsEach (d : Dbms) (db : Db) (uid : Nat) (params : Params) : Prop :=
  ((pageQuery d db uid params).map (·.package)).Perm (db.packages.filter (isListed d db params))

/-- A search that joins comaintainers lists a package as often as it sees rows of them. -/
theorem listsEach_iff_of_stems (h : Catalogue d.cfg db) (hs : Stems db s f)
    (hkeywords : applyKeywords d db params (PackageSearch.init db (some uid)) = s)
    (hmatches : ∀ p ∈ db.packages, f p ≠ [] ↔ matchesKeywords d db params p = true)
    (hrows : ∀ p, (f p).length ≤ 1 ↔ (rowsSeen d db params p).length ≤ 1) :
    ListsEach d db uid params ↔
      ∀ p ∈ db.packages, isListed d db params p = true → (rowsSeen d db params p).length ≤ 1 := by
  unfold ListsEach pageQuery isListed
  rw [hkeywords, hs.perm_iff h hmatches]
  simp only [hrows]

theorem listsEach_of_filter (h : Catalogue d.cfg db) {q : Row → Bool}
    (hs : applyKeywords d db params (PackageSearch.init db (some uid)) = (visited db uid).filter q)
    (hq : ∀ p ∈ db.packages, q (visitorRow db uid p) = matchesKeywords d db params p) :
    ListsEach d db uid params := by
  unfold ListsEach pageQuery isListed
  rw [hs]
  exact perm_of_filter h hq

theorem listsEach_words (h : Catalogue d.cfg db)
    (hseB : params.seB ∉ ["m", "c", "M", "s"]) (hk : params.seB ≠ "k") :
    ListsEach d db uid params := by
  refine listsEach_of_filter h (q := fun r =>
    (words params.k).all fun word => wordFilter d params.seB word r) ?_ ?_
  · unfold applyKeywords
    rw [if_neg hseB, if_neg hk]
    exact foldl_searchBy_init hseB (words_ne_nil _)
  · intro p _
    unfold matchesKeywords
    split
    case h_10 hm hc hM hs _ hn hb hN hB =>
      have hword : ∀ word, wordFilter d params.seB word (visitorRow db uid p) =
          isMatch d db "name-desc" word p := by
        intro word
        simp only [wordFilter]
        rfl
      simp only [hword]
    case h_5 heq => exact absurd heq hk
    case h_6 heq | h_7 heq | h_8 heq | h_9 heq =>
      rw [heq]
      rfl
    all_goals next heq => exact absurd (by simp [heq]) hseB

theorem listsEach_maintainer (h : Catalogue d.cfg db) (hseB : params.seB = "m") :
    ListsEach d db uid params := by
  by_cases harg : d.strip params.k = ""
  · refine listsEach_of_filter h (q := fun r => r.base.maintainerUID.isNone) ?_ ?_
    · simp only [applyKeywords, hseB, List.mem_cons, true_or, if_true]
      show PackageSearch.searchByMaintainer d db _ _ = _
      rw [PackageSearch.searchByMaintainer, if_neg (not_not.mpr harg)]
      rfl
    · intro p _
      simp only [matchesKeywords, hseB, isMatch, if_pos harg]
      rfl
  · refine listsEach_of_filter h (q := fun r => r.user.any fun u =>
      d.cfg.sameName u.username (d.strip params.k) && some u.id == r.base.maintainerUID) ?_ ?_
    · simp only [applyKeywords, hseB, List.mem_cons, true_or, if_true]
      show PackageSearch.searchByMaintainer d db _ _ = _
      rw [PackageSearch.searchByMaintainer, if_pos harg]
      rfl
    · intro p _
      simp only [matchesKeywords, hseB, isMatch, if_neg harg]
      exact Rpc.any_accountOf h _ _

theorem listsEach_submitter (h : Catalogue d.cfg db) (hseB : params.seB = "s") :
    ListsEach d db uid params := by
  refine listsEach_of_filter h (q := fun r =>
    r.base.submitterUID == some (PackageSearch.uidNamed d db (d.strip params.k))) ?_ ?_
  · simp only [applyKeywords, hseB, List.mem_cons, true_or, or_true, if_true]
    rfl
  · intro p hp
    simp only [matchesKeywords, hseB]
    exact Rpc.submitterUID_eq h _ hp

theorem gives_visited (h : Catalogue d.cfg db) (uid : Nat) :
    Gives db (visited db uid).query fun _ => true := by
  rw [visited, h.visitor_query]
  exact Rpc.gives_map (fun _ => rfl) (fun _ => rfl) fun _ => rfl

theorem any_keywords (h : Catalogue d.cfg db) {p : Package} (hp : p ∈ db.packages) :
    ((db.packageKeywords.filter (·.packageBaseID == (baseOf db p).id)).any fun k =>
      ((words params.k).map d.lower).any (d.cfg.sameName k.keyword)) =
      (words params.k).any fun word => isMatch d db "keywords" (d.lower word) p := by
  rw [Bool.eq_iff_iff, h.baseOf_id hp]
  simp only [isMatch, List.any_eq_true, List.mem_filter, List.mem_map, Bool.and_eq_true]
  constructor
  · intro ⟨k, ⟨hk, hbase⟩, _, ⟨word, hword, rfl⟩, hsame⟩
    exact ⟨word, hword, k, hk, hbase, hsame⟩
  · intro ⟨word, hword, k, hk, hbase, hsame⟩
    exact ⟨k, ⟨hk, hbase⟩, _, ⟨word, hword, rfl⟩, hsame⟩

theorem listsEach_keywords (h : Catalogue d.cfg db) (hseB : params.seB = "k") :
    ListsEach d db uid params := by
  let found : Row → List PackageKeyword :=
    fun r => db.packageKeywords.filter (·.packageBaseID == r.base.id)
  let asked : PackageKeyword → Bool :=
    fun k => ((words params.k).map d.lower).any (d.cfg.sameName k.keyword)
  have hquery : pageQuery d db uid params =
      Query.groupBy (fun r => d.cfg.collate r.package.name)
        (((Query.inner found (fun r k => { r with keyword := some k }) (visited db uid).query).filter
          fun r => r.keyword.any asked).filter fun r => matchesFlags params r.base) := by
    rw [pageQuery, PackageSearch.results, applyFlags_groupedByName, applyFlags_query]
    simp only [applyKeywords, hseB]
    rfl
  have hgives : Gives db ((Query.inner found (fun r k => { r with keyword := some k })
      (visited db uid).query).filter fun r => r.keyword.any asked) fun p =>
        true && (db.packageKeywords.filter (·.packageBaseID == (baseOf db p).id)).any asked := by
    apply (gives_visited h uid).inner
    · intro _ _
      exact ⟨rfl, rfl, rfl⟩
    · intro r hr
      simp only [found, (gives_visited h uid).base r hr]
    · intro _ _
      rfl
  have hflags := hgives.filter (q := fun r => matchesFlags params r.base)
    (Q := fun p => matchesFlags params (baseOf db p)) fun r hr => by rw [hgives.base r hr]
  have hlisted := hflags.congr (Q := isListed d db params) fun p hp => by
    simp only [isListed, matchesKeywords, hseB, Bool.true_and, ← any_keywords h hp]
    rfl
  unfold ListsEach
  rw [hquery]
  exact hlisted.perm_groupBy h h.packageNames

/-! ### The comaintainers -/

theorem length_named (h : Catalogue d.cfg db) (arg : String) (p : Package) :
    (comaintainersOf db p).filter (·.usersID == PackageSearch.uidNamed d db arg) =
      comaintainersNamed d db arg p := by
  refine List.filter_congr fun c hc => ?_
  obtain ⟨u, hu, hid⟩ := h.comaintainers c (List.mem_of_mem_filter hc)
  have hne : c.usersID ≠ 0 := by
    rw [← hid]
    exact h.userIDs u hu
  rw [Bool.eq_iff_iff, beq_iff_eq, eq_comm, Rpc.uidNamed_eq_iff h hne, List.any_eq_true]
  simp only [Bool.and_eq_true, beq_iff_eq]

theorem maintainedBy_eq (h : Catalogue d.cfg db) (arg : String) (p : Package) :
    (accountOf db (baseOf db p).maintainerUID).any (·.id == PackageSearch.uidNamed d db arg) =
      maintainedBy d db arg p := by
  rw [maintainedBy, ← Rpc.any_accountOf h]
  unfold accountOf
  cases hfind : db.users.find? fun u => some u.id == (baseOf db p).maintainerUID with
  | none => rfl
  | some u =>
      have hu := List.mem_of_find?_eq_some hfind
      have hid : (some u.id == (baseOf db p).maintainerUID) = true :=
        List.find?_some (p := fun u : User => some u.id == (baseOf db p).maintainerUID) hfind
      rw [Option.any_some, Option.any_some, hid, Bool.and_true, Bool.eq_iff_iff, beq_iff_eq, eq_comm,
        Rpc.uidNamed_eq_iff h (h.userIDs u hu)]
      constructor
      · intro ⟨u', hu', hname, hsame⟩
        rwa [← List.inj_on_of_nodup_map h.users hu' hu hsame]
      · intro hname
        exact ⟨u, hu, hname, rfl⟩

theorem stems_comaintainer (h : Catalogue d.cfg db) (uid : Nat) (arg : String) :
    Stems db ((PackageSearch.init db (some uid)).searchByComaintainer d db arg) fun p =>
      (comaintainersNamed d db arg p).map fun c =>
        { visitorRow db uid p with comaintainer := some c } where
  query := by
    show (Query.inner (fun r : Row => db.packageComaintainers.filter (·.packageBaseID == r.base.id))
      (fun r c => { r with comaintainer := some c }) (visited db uid).query).filter _ = _
    rw [visited, h.visitor_query, Query.inner, List.flatMap_map, List.filter_flatMap]
    refine List.flatMap_congr fun p hp => ?_
    rw [List.filter_map, ← length_named h, comaintainersOf, ← h.baseOf_id hp]
    rfl
  ungrouped := rfl
  package p _ r hr := by
    obtain ⟨c, -, rfl⟩ := List.mem_map.mp hr
    rfl
  base p _ r hr := by
    obtain ⟨c, -, rfl⟩ := List.mem_map.mp hr
    rfl

/-- What an outer join with the comaintainers leaves of a package. -/
def coOrMaintainerRows (d : Dbms) (db : Db) (uid : Nat) (arg : String) (p : Package) : List Row :=
  if maintainedBy d db arg p ∧ comaintainersOf db p = [] then [visitorRow db uid p]
  else
    (if maintainedBy d db arg p then comaintainersOf db p else comaintainersNamed d db arg p).map
      fun c => { visitorRow db uid p with comaintainer := some c }

theorem of_mem_coOrMaintainerRows {arg : String} {p : Package} {r : Row}
    (hr : r ∈ coOrMaintainerRows d db uid arg p) : r.package = p ∧ r.base = baseOf db p := by
  unfold coOrMaintainerRows at hr
  split_ifs at hr
  · rw [List.mem_singleton.mp hr]
    exact ⟨rfl, rfl⟩
  all_goals
    obtain ⟨c, -, rfl⟩ := List.mem_map.mp hr
    exact ⟨rfl, rfl⟩

theorem stems_coOrMaintainer (h : Catalogue d.cfg db) (uid : Nat) (arg : String) :
    Stems db ((PackageSearch.init db (some uid)).searchByCoOrMaintainer d db arg)
      (coOrMaintainerRows d db uid arg) where
  query := by
    show (Query.outer (fun r : Row => db.packageComaintainers.filter (·.packageBaseID == r.base.id))
      (fun r c => { r with comaintainer := c }) (visited db uid).query).filter _ = _
    rw [visited, h.visitor_query, Query.outer, List.flatMap_map, List.filter_flatMap]
    refine List.flatMap_congr fun p hp => ?_
    have hfound : db.packageComaintainers.filter
        (·.packageBaseID == (visitorRow db uid p).base.id) = comaintainersOf db p := by
      show db.packageComaintainers.filter (·.packageBaseID == (baseOf db p).id) = _
      rw [h.baseOf_id hp]
      rfl
    have hmaintained : (visitorRow db uid p).user.any (·.id == PackageSearch.uidNamed d db arg) =
        maintainedBy d db arg p := maintainedBy_eq h arg p
    rw [hfound]
    unfold coOrMaintainerRows
    rw [← length_named h]
    cases hall : comaintainersOf db p with
    | nil =>
        by_cases hm : maintainedBy d db arg p = true
        · simp [hmaintained, hm]
          rfl
        · simp [hmaintained, hm]
    | cons c cs =>
        show ((c :: cs).map fun c => { visitorRow db uid p with comaintainer := some c }).filter _ = _
        rw [List.filter_map, if_neg (by simp)]
        refine congrArg (List.map _) ?_
        by_cases hm : maintainedBy d db arg p = true
        · rw [if_pos hm, List.filter_eq_self]
          intro c' _
          show (_ || (visitorRow db uid p).user.any _) = true
          rw [hmaintained, hm, Bool.or_true]
        · rw [if_neg hm]
          refine List.filter_congr fun c' _ => ?_
          show (_ || (visitorRow db uid p).user.any _) = _
          rw [hmaintained, eq_false_of_ne_true hm, Bool.or_false]
          rfl
  ungrouped := rfl
  package p _ r hr := (of_mem_coOrMaintainerRows hr).1
  base p _ r hr := (of_mem_coOrMaintainerRows hr).2

theorem named_ne_nil_iff (h : Catalogue d.cfg db) (arg : String) (p : Package) :
    comaintainersNamed d db arg p ≠ [] ↔ isMatch d db "comaintainers" arg p = true := by
  rw [← Rpc.any_comaintainers h, ← length_named h, comaintainersOf, List.filter_filter, Ne,
    List.filter_eq_nil_iff, List.any_eq_true]
  push Not
  simp only [Bool.and_comm]

theorem listsEach_comaintainer_iff (h : Catalogue d.cfg db) (hseB : params.seB = "c") :
    ListsEach d db uid params ↔
      ∀ p ∈ db.packages, isListed d db params p = true → (rowsSeen d db params p).length ≤ 1 := by
  refine listsEach_iff_of_stems h (stems_comaintainer h uid (d.strip params.k)) ?_ ?_ ?_
  · simp only [applyKeywords, hseB, List.mem_cons, true_or, or_true, if_true]
    rfl
  · intro p _
    simp only [matchesKeywords, hseB]
    rw [← named_ne_nil_iff h, Ne, List.map_eq_nil_iff]
  · intro p
    simp only [rowsSeen, hseB, List.length_map]

theorem coOrMaintainerRows_ne_nil_iff (h : Catalogue d.cfg db) (arg : String) (p : Package) :
    coOrMaintainerRows d db uid arg p ≠ [] ↔
      (isMatch d db "comaintainers" arg p || maintainedBy d db arg p) = true := by
  unfold coOrMaintainerRows
  rw [Bool.or_eq_true, ← named_ne_nil_iff h]
  split_ifs with hboth hm
  · simp [hboth.1]
  · have hne : comaintainersOf db p ≠ [] := fun hnil => hboth ⟨hm, hnil⟩
    simp [hm, hne]
  · simp [hm]

theorem length_coOrMaintainerRows_le_one_iff (arg : String) (p : Package) :
    (coOrMaintainerRows d db uid arg p).length ≤ 1 ↔
      (if maintainedBy d db arg p then comaintainersOf db p
        else comaintainersNamed d db arg p).length ≤ 1 := by
  unfold coOrMaintainerRows
  by_cases hboth : maintainedBy d db arg p = true ∧ comaintainersOf db p = []
  · rw [if_pos hboth, if_pos hboth.1, hboth.2]
    exact iff_of_true (le_refl 1) (Nat.zero_le 1)
  · rw [if_neg hboth, List.length_map]

theorem listsEach_coOrMaintainer_iff (h : Catalogue d.cfg db) (hseB : params.seB = "M") :
    ListsEach d db uid params ↔
      ∀ p ∈ db.packages, isListed d db params p = true → (rowsSeen d db params p).length ≤ 1 := by
  refine listsEach_iff_of_stems h (stems_coOrMaintainer h uid (d.strip params.k)) ?_ ?_ ?_
  · simp only [applyKeywords, hseB, List.mem_cons, true_or, or_true, if_true]
    rfl
  · intro p _
    simp only [matchesKeywords, hseB]
    exact coOrMaintainerRows_ne_nil_iff h _ p
  · intro p
    simp only [rowsSeen, hseB]
    exact length_coOrMaintainerRows_le_one_iff _ p

theorem listsEach_iff (uid : Nat) (h : Catalogue d.cfg db) :
    ListsEach d db uid params ↔
      ∀ p ∈ db.packages, isListed d db params p = true → (rowsSeen d db params p).length ≤ 1 := by
  by_cases hc : params.seB = "c"
  · exact listsEach_comaintainer_iff h hc
  by_cases hM : params.seB = "M"
  · exact listsEach_coOrMaintainer_iff h hM
  refine iff_of_true ?_ ?_
  · by_cases hm : params.seB = "m"
    · exact listsEach_maintainer h hm
    by_cases hs : params.seB = "s"
    · exact listsEach_submitter h hs
    by_cases hk : params.seB = "k"
    · exact listsEach_keywords h hk
    exact listsEach_words h (by simp [hm, hc, hM, hs]) hk
  · intro p _ _
    simp only [rowsSeen]
    exact Nat.zero_le 1

/-! ### The page -/

/-- The page lists each matching package once and counts them, unless a package is met at several
rows of comaintainers or the count is one that was stored when there were others. -/
theorem pageQuery_perm_iff (d : Dbms) (db : Db) (uid : Nat) (params : Params)
    (cached : Option Nat) (h : Catalogue d.cfg db) :
    (((pageQuery d db uid params).map (·.package)).Perm
        (db.packages.filter (isListed d db params)) ∧
      numPackages d db uid params cached = (db.packages.filter (isListed d db params)).length) ↔
    (∀ p ∈ db.packages, isListed d db params p = true → (rowsSeen d db params p).length ≤ 1) ∧
      ∀ n ∈ cached, n = (db.packages.filter (isListed d db params)).length := by
  rw [← listsEach_iff uid h]
  refine and_congr_right fun hlists => ?_
  have hlength := hlists.length_eq
  rw [List.length_map] at hlength
  cases cached with
  | none => simp [numPackages, dbCountCache, hlength]
  | some n => simp [numPackages, dbCountCache]

/-- The base of `carol` with a second comaintainer. -/
def twoComaintainers : Db :=
  { Rpc.smallCatalogue with
    packageComaintainers := [
      { usersID := 2, packageBaseID := 4, priority := 1 },
      { usersID := 1, packageBaseID := 4, priority := 2 }] }

theorem twoComaintainers_catalogue : Catalogue siteConfig twoComaintainers where
  packages := by decide
  packageNames := by decide
  packageBases := by decide
  bases := by decide
  baseNames := by decide
  users := by decide
  userIDs := by decide
  userNames := by decide
  submitters := by decide
  comaintainers := by decide
  votes := by decide
  notifications := by decide

/-- What `carol` maintains and comaintains. -/
def ofCarol : Params := { seB := "M", k := "carol" }

example : (pageQuery Rpc.plainDbms twoComaintainers 0 ofCarol).length = 4 := by decide

theorem pageQuery_perm_iff_carol :
    (((pageQuery Rpc.plainDbms twoComaintainers 0 ofCarol).map (·.package)).Perm
        (twoComaintainers.packages.filter (isListed Rpc.plainDbms twoComaintainers ofCarol)) ∧
      numPackages Rpc.plainDbms twoComaintainers 0 ofCarol none =
        (twoComaintainers.packages.filter
          (isListed Rpc.plainDbms twoComaintainers ofCarol)).length) ↔
    (∀ p ∈ twoComaintainers.packages, isListed Rpc.plainDbms twoComaintainers ofCarol p = true →
        (rowsSeen Rpc.plainDbms twoComaintainers ofCarol p).length ≤ 1) ∧
      ∀ n ∈ (none : Option Nat), n = (twoComaintainers.packages.filter
        (isListed Rpc.plainDbms twoComaintainers ofCarol)).length :=
  pageQuery_perm_iff Rpc.plainDbms twoComaintainers 0 ofCarol none twoComaintainers_catalogue

theorem not_pageQuery_perm :
    Catalogue siteConfig twoComaintainers ∧
    (twoComaintainers.packages.filter (isListed Rpc.plainDbms twoComaintainers ofCarol)).map
        (·.name) = ["foo", "foo-docs"] ∧
    (pageQuery Rpc.plainDbms twoComaintainers 0 ofCarol).map (·.package.name) =
      ["foo", "foo", "foo-docs", "foo-docs"] ∧
    numPackages Rpc.plainDbms twoComaintainers 0 ofCarol none = 4 :=
  ⟨twoComaintainers_catalogue, by decide, by decide, by decide⟩

end Aurweb.Search
