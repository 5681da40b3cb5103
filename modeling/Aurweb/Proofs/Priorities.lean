/-
The order of the comaintainers.

Priorities say who is next when the maintainer leaves.  The form and the disowning delete
rows, add them at the end and number the rest again, and the lists of the other bases are
not touched; so one base is looked at at a time, through the list of its rows.  Numbering
again is right where the deleted rows are gone when it reads the table.  In a disowning
they are not, and the numbers have a gap unless the row that goes was the last.
-/
import Aurweb.Lib.Ranking
import Aurweb.Proofs.Permissions

namespace Aurweb

open Ranking

/-- The comaintainers of a base, the next in line first. -/
def lineOf (db : Db) (baseID : Nat) : List Nat := (byPriority db baseID).map (·.usersID)

/-- The priorities on the list of every base are 1 to the number of its comaintainers. -/
def InSequence (db : Db) : Prop :=
  ∀ b ∈ db.packageBases, Sequential (·.priority) (comaintainersOf db b.id)

instance : DecidablePred InSequence := fun db =>
  inferInstanceAs (Decidable (∀ b ∈ db.packageBases,
    Sequential (·.priority) (comaintainersOf db b.id)))

/-- Whoever was and is on a list keeps their place among those who were and are. -/
def KeepsPlaces (db db' : Db) : Prop :=
  ∀ id, ((lineOf db' id).filter fun uid => (lineOf db id).contains uid).Sublist (lineOf db id)

/-- The list of one base, as it should be. -/
structure Tidy (db : Db) (id : Nat) : Prop where
  once : ((comaintainersOf db id).map (·.usersID)).Nodup
  sequential : Sequential (·.priority) (comaintainersOf db id)

section

variable {cfg : Config} {db db' : Db}

/-! ### One list -/

theorem byPriority_eq (db : Db) (id : Nat) :
    byPriority db id = ranked (·.priority) (comaintainersOf db id) := rfl

/-- The list is a function of its rows. -/
theorem lineOf_congr {id : Nat} (h : comaintainersOf db' id = comaintainersOf db id) :
    lineOf db' id = lineOf db id := by
  unfold lineOf
  rw [byPriority_eq, byPriority_eq, h]

theorem Tidy.congr {id : Nat} (hrows : comaintainersOf db' id = comaintainersOf db id)
    (h : Tidy db id) : Tidy db' id := by
  constructor
  · rw [hrows]
    exact h.once
  · rw [hrows]
    exact h.sequential

theorem mem_lineOf {id uid : Nat} : uid ∈ lineOf db id ↔ isComaintainer db id uid = true := by
  rw [isComaintainer_iff]
  constructor
  · intro h
    obtain ⟨c, hc, huid⟩ := List.mem_map.mp h
    obtain ⟨hmem, hof⟩ := List.mem_filter.mp (mem_ranked.mp hc)
    exact ⟨c, hmem, hof, huid⟩
  · rintro ⟨c, hc, hof, huid⟩
    refine List.mem_map.mpr ⟨c, ?_, huid⟩
    exact mem_ranked.mpr (List.mem_filter.mpr ⟨hc, hof⟩)

/-- The primary key: nobody is on a list twice. -/
theorem once_of_keys (h : db.comaintainerKeys.Nodup) (id : Nat) :
    ((comaintainersOf db id).map (·.usersID)).Nodup := by
  refine List.Nodup.map_on ?_ ((List.Nodup.of_map _ h).filter _)
  intro c hc c' hc' huid
  obtain ⟨hmem, hof⟩ := List.mem_filter.mp hc
  obtain ⟨hmem', hof'⟩ := List.mem_filter.mp hc'
  have hbase : c.packageBaseID = c'.packageBaseID :=
    (beq_iff_eq.mp hof).trans (beq_iff_eq.mp hof').symm
  exact List.inj_on_of_nodup_map h hmem hmem' (Prod.ext huid hbase)

theorem nodup_lineOf {id : Nat} (h : ((comaintainersOf db id).map (·.usersID)).Nodup) :
    (lineOf db id).Nodup :=
  ((perm_ranked _ _).map _).nodup_iff.mpr h

/-! ### Statements about one list -/

theorem comaintainersOf_delete (db : Db) (id : Nat) (p : PackageComaintainer → Bool) :
    comaintainersOf (deleteComaintainers db id p) id =
      (comaintainersOf db id).filter fun c => !p c := by
  unfold comaintainersOf deleteComaintainers Table.delete
  rw [List.filter_filter, List.filter_filter]
  refine List.filter_congr fun c _ => ?_
  cases hof : c.of id <;> simp [hof]

theorem comaintainersOf_insert (db : Db) {id : Nat} {c : PackageComaintainer}
    (hid : c.of id = true) :
    comaintainersOf (insertComaintainer db c) id = comaintainersOf db id ++ [c] := by
  unfold comaintainersOf insertComaintainer
  rw [List.filter_append, List.filter_singleton, hid]
  rfl

/-- The number that a row gets: its place in the line. -/
def renumber (db : Db) (id : Nat) (c : PackageComaintainer) : PackageComaintainer :=
  { c with priority := (lineOf db id).idxOf c.usersID + 1 }

theorem comaintainersOf_rotate (db : Db) (id : Nat) :
    comaintainersOf (rotateComaintainers db id) id =
      (comaintainersOf db id).map (renumber db id) := by
  unfold comaintainersOf rotateComaintainers
  rw [Table.filter_update_self]
  · rfl
  · exact fun c => rfl

theorem map_usersID_renumber (db : Db) (id : Nat) (rows : List PackageComaintainer) :
    (rows.map (renumber db id)).map (·.usersID) = rows.map (·.usersID) := by
  rw [List.map_map]
  rfl

/-- Numbering again keeps the line, and leaves it tidy. -/
theorem rotate_spec {id : Nat} (honce : ((comaintainersOf db id).map (·.usersID)).Nodup) :
    Tidy (rotateComaintainers db id) id ∧
      lineOf (rotateComaintainers db id) id = lineOf db id := by
  have hnumber : ∀ c ∈ comaintainersOf db id, (renumber db id c).priority =
      ((ranked (·.priority) (comaintainersOf db id)).map (·.usersID)).idxOf c.usersID + 1 :=
    fun c _ => rfl
  refine ⟨⟨?_, ?_⟩, ?_⟩
  · rw [comaintainersOf_rotate, map_usersID_renumber db]
    exact honce
  · rw [comaintainersOf_rotate]
    exact Sequential.renumber honce hnumber
  · unfold lineOf
    rw [byPriority_eq, byPriority_eq, comaintainersOf_rotate, ranked_renumber honce hnumber,
      map_usersID_renumber db]

/-- A deletion takes people out of the line. -/
theorem lineOf_delete {id : Nat} (h : Tidy db id) (q : Nat → Bool) :
    lineOf (deleteComaintainers db id fun c => q c.usersID) id =
      (lineOf db id).filter fun uid => !q uid := by
  unfold lineOf
  rw [byPriority_eq, byPriority_eq, comaintainersOf_delete, ranked_filter h.sequential.nodup,
    List.filter_map]
  rfl

theorem once_delete {id : Nat} (h : Tidy db id) (p : PackageComaintainer → Bool) :
    ((comaintainersOf (deleteComaintainers db id p) id).map (·.usersID)).Nodup := by
  rw [comaintainersOf_delete]
  exact h.once.sublist (List.filter_sublist.map _)

/-- Rows that are deleted before the others are numbered again. -/
theorem removeComaintainers_spec (cfg : Config) {id : Nat} (h : Tidy db id)
    (usernames : List String) :
    Tidy (removeComaintainers cfg db id usernames) id ∧
      lineOf (removeComaintainers cfg db id usernames) id =
        (lineOf db id).filter fun uid => !namedIn cfg db usernames uid := by
  obtain ⟨htidy, hline⟩ := rotate_spec (once_delete h fun c => namedIn cfg db usernames c.usersID)
  refine ⟨htidy, hline.trans ?_⟩
  exact lineOf_delete h (namedIn cfg db usernames)

/-- A row that is deleted after the others have been numbered again. -/
theorem lineOf_remove {id : Nat} (uid : Nat)
    (honce : ((comaintainersOf db id).map (·.usersID)).Nodup) :
    lineOf (removeComaintainer db id uid) id = (lineOf db id).filter fun v => !(v == uid) := by
  obtain ⟨htidy, hline⟩ := rotate_spec honce
  rw [← hline]
  exact lineOf_delete htidy fun v => v == uid

theorem removeComaintainer_tidy {id uid : Nat} (h : Tidy db id)
    (hlast : (lineOf db id).getLast? = some uid) : Tidy (removeComaintainer db id uid) id := by
  obtain ⟨htidy, hline⟩ := rotate_spec h.once
  refine ⟨once_delete htidy _, ?_⟩
  rw [← hline] at hlast
  unfold lineOf at hlast
  rw [List.getLast?_map] at hlast
  obtain ⟨c, hc, rfl⟩ := Option.map_eq_some_iff.mp hlast
  unfold removeComaintainer
  rw [comaintainersOf_delete]
  exact Sequential.dropLast htidy.once htidy.sequential hc

/-- Whoever is added is the last in line. -/
theorem addComaintainer_spec {b : PackageBase} (h : Tidy db b.id) {u : User}
    (hnew : u.id ∉ lineOf db b.id) (hm : b.maintainerUID ≠ some u.id) :
    Tidy (addComaintainer b db u) b.id ∧
      lineOf (addComaintainer b db u) b.id = lineOf db b.id ++ [u.id] := by
  have hlatest : latestPriority db b.id = (comaintainersOf db b.id).length := by
    unfold latestPriority
    rw [byPriority_eq]
    cases hlast : (ranked (·.priority) (comaintainersOf db b.id)).getLast? with
    | none =>
        have hnil := List.getLast?_eq_none_iff.mp hlast
        rw [← length_ranked (·.priority), hnil]
        rfl
    | some c => exact h.sequential.rank_getLast hlast
  unfold addComaintainer
  rw [if_neg hm]
  have hid : PackageComaintainer.of
      { usersID := u.id, packageBaseID := b.id, priority := latestPriority db b.id + 1 } b.id =
        true := beq_self_eq_true _
  refine ⟨⟨?_, ?_⟩, ?_⟩
  · rw [comaintainersOf_insert db hid, List.map_append, List.map_singleton]
    refine List.Nodup.append h.once (List.nodup_singleton _) ?_
    intro uid huid huid'
    rw [List.mem_singleton.mp huid'] at huid
    exact hnew (((perm_ranked _ _).map _).mem_iff.mpr huid)
  · rw [comaintainersOf_insert db hid]
    exact h.sequential.append (by rw [hlatest])
  · unfold lineOf
    rw [byPriority_eq, byPriority_eq, comaintainersOf_insert db hid,
      ranked_append h.sequential.nodup, List.map_append]
    · rfl
    intro c hc
    have hle := h.sequential.le hc
    show c.priority < latestPriority db b.id + 1
    rw [hlatest]
    exact Nat.lt_succ_of_le hle

/-- People who are not on the list are added to it, except for the maintainer. -/
theorem addEach_spec {b : PackageBase} :
    ∀ (us : List User) (db : Db), Tidy db b.id → us.Pairwise (fun u v => u.id ≠ v.id) →
      (∀ u ∈ us, u.id ∉ lineOf db b.id) →
      Tidy (us.foldl (addComaintainer b) db) b.id ∧
        ∃ new, lineOf (us.foldl (addComaintainer b) db) b.id = lineOf db b.id ++ new ∧
          ∀ uid ∈ new, ∃ u ∈ us, u.id = uid
  | [], db, h, _, _ => ⟨h, [], by simp, by simp⟩
  | u :: us, db, h, hdistinct, hnew => by
      rw [List.pairwise_cons] at hdistinct
      by_cases hm : b.maintainerUID = some u.id
      · have hskip : addComaintainer b db u = db := if_pos hm
        obtain ⟨htidy, new, hline, hfrom⟩ :=
          addEach_spec us db h hdistinct.2 fun v hv => hnew v (by simp [hv])
        rw [List.foldl_cons, hskip]
        refine ⟨htidy, new, hline, fun uid huid => ?_⟩
        obtain ⟨v, hv, hid⟩ := hfrom uid huid
        exact ⟨v, by simp [hv], hid⟩
      · obtain ⟨hadded, hfirst⟩ := addComaintainer_spec h (hnew u (by simp)) hm
        have hrest : ∀ v ∈ us, v.id ∉ lineOf (addComaintainer b db u) b.id := by
          intro v hv hmem
          rw [hfirst] at hmem
          rcases List.mem_append.mp hmem with hmem | hmem
          · exact hnew v (by simp [hv]) hmem
          · exact hdistinct.1 v hv (List.mem_singleton.mp hmem).symm
        obtain ⟨htidy, new, hline, hfrom⟩ := addEach_spec us _ hadded hdistinct.2 hrest
        refine ⟨htidy, u.id :: new, ?_, fun uid huid => ?_⟩
        · rw [List.foldl_cons, hline, hfirst, List.append_assoc]
          rfl
        · rcases List.mem_cons.mp huid with rfl | huid
          · exact ⟨u, by simp, rfl⟩
          · obtain ⟨v, hv, hid⟩ := hfrom uid huid
            exact ⟨v, by simp [hv], hid⟩

/-- Names of different accounts, none of whom is on the list. -/
theorem addComaintainers_spec {b : PackageBase} {names : List String} (h : Tidy db b.id)
    (hnodup : names.Nodup)
    (hdistinct : ∀ n ∈ names, ∀ n' ∈ names, ∀ u u', userNamed cfg db n = some u →
      userNamed cfg db n' = some u' → u.id = u'.id → n = n')
    (hnew : ∀ n ∈ names, ∀ u, userNamed cfg db n = some u → u.id ∉ lineOf db b.id)
    (hadded : addComaintainers cfg db b names = .ok db') :
    Tidy db' b.id ∧ ∃ new, lineOf db' b.id = lineOf db b.id ++ new ∧
      ∀ uid ∈ new, ∃ n ∈ names, ∃ u, userNamed cfg db n = some u ∧ u.id = uid := by
  obtain ⟨rfl, -⟩ := addComaintainers_ok hadded
  have hapart : (names.filterMap (userNamed cfg db)).Pairwise fun u v => u.id ≠ v.id := by
    rw [List.pairwise_filterMap]
    refine hnodup.imp_of_mem fun {n n'} hn hn' hne u hu u' hu' hid => hne ?_
    exact hdistinct n hn n' hn' u u' hu hu' hid
  have hout : ∀ u ∈ names.filterMap (userNamed cfg db), u.id ∉ lineOf db b.id := by
    intro u hu
    obtain ⟨n, hn, hnamed⟩ := List.mem_filterMap.mp hu
    exact hnew n hn u hnamed
  obtain ⟨htidy, new, hline, hfrom⟩ := addEach_spec _ db h hapart hout
  refine ⟨htidy, new, hline, fun uid huid => ?_⟩
  obtain ⟨u, hu, hid⟩ := hfrom uid huid
  obtain ⟨n, hn, hnamed⟩ := List.mem_filterMap.mp hu
  exact ⟨n, hn, u, hnamed, hid⟩

/-! ### The other lists -/

theorem Restaffs.comaintainersOf_other {id id' : Nat} (h : Restaffs id db db') (hne : id' ≠ id) :
    comaintainersOf db' id' = comaintainersOf db id' := by
  refine Table.filter_eq_of_subset (fun c hc => ?_) h.other
  have hbase : c.packageBaseID = id' := beq_iff_eq.mp hc
  simpa [PackageComaintainer.of, hbase] using hne

/-- What was tidy stays so, and nobody overtakes anybody. -/
structure Passes (db db' : Db) (id : Nat) : Prop where
  tidy : Tidy db' id
  places : ((lineOf db' id).filter fun uid => (lineOf db id).contains uid).Sublist (lineOf db id)

theorem Passes.of_sublist {id : Nat} (htidy : Tidy db' id)
    (hsub : (lineOf db' id).Sublist (lineOf db id)) : Passes db db' id :=
  ⟨htidy, List.filter_sublist.trans hsub⟩

theorem Passes.of_rows {id : Nat} (h : Tidy db id)
    (hrows : comaintainersOf db' id = comaintainersOf db id) : Passes db db' id := by
  refine .of_sublist (h.congr hrows) ?_
  rw [lineOf_congr hrows]

/-! ### The form -/

/-- Different names are of different accounts, and whoever is on the list already is called
what their account is called. -/
structure NamesApart (cfg : Config) (db : Db) (b : PackageBase) (users : List String) : Prop where
  distinct : ∀ n ∈ users, ∀ n' ∈ users, ∀ u u', userNamed cfg db n = some u →
    userNamed cfg db n' = some u' → u.id = u'.id → n = n'
  exact : ∀ n ∈ users, ∀ u, userNamed cfg db n = some u →
    isComaintainer db b.id u.id = true → n = u.username

/-- A name that the form adds is not of somebody on the list. -/
theorem NamesApart.not_mem_lineOf (hwf : WellFormed cfg db) {b : PackageBase}
    {users : List String} (h : NamesApart cfg db b users) {n : String} (hn : n ∈ users)
    (hadded : n ∉ comaintainerNames db b.id) {u : User} (hu : userNamed cfg db n = some u) :
    u.id ∉ lineOf db b.id := by
  intro hmem
  have hco := mem_lineOf.mp hmem
  have hname := h.exact n hn u hu hco
  obtain ⟨c, hc, hof, huid⟩ := isComaintainer_iff.mp hco
  refine hadded (List.mem_filterMap.mpr ⟨c, List.mem_filter.mpr ⟨hc, hof⟩, ?_⟩)
  have hfind : db.user? c.usersID = some u :=
    (user?_eq_some hwf.users.nodup).mpr ⟨(userNamed_mem hu).1, huid.symm⟩
  rw [hfind, hname]
  rfl

theorem isSome_of_mem_comaintainerNames {n : String} {id : Nat}
    (h : n ∈ comaintainerNames db id) : (userNamed cfg db n).isSome := by
  obtain ⟨c, -, hname⟩ := List.mem_filterMap.mp h
  obtain ⟨u, hu, rfl⟩ := Option.map_eq_some_iff.mp hname
  exact List.find?_isSome.mpr ⟨u, (Db.user?_mem hu).1, cfg.sameName_refl _⟩

/-- The second half of the form: names that are not on the list yet. -/
theorem added_passes (hwf : WellFormed cfg db) (h : ∀ id, Tidy db id) {b : PackageBase}
    {users : List String}
    (hapart : (∀ n ∈ users, (userNamed cfg db n).isSome) → NamesApart cfg db b users)
    {removed : Db} (hremoved : Restaffs b.id db removed) (htidy : Tidy removed b.id)
    {p : Nat → Bool} (hline : lineOf removed b.id = (lineOf db b.id).filter p)
    (hadded : addComaintainers cfg removed b
      (users.dedup.filter fun n => !(comaintainerNames db b.id).contains n) = .ok db')
    (id : Nat) : Passes db db' id := by
  by_cases hid : id ≠ b.id
  · have hrestaffs := hremoved.trans (addComaintainers_restaffs hadded).1
    exact .of_rows (h id) (hrestaffs.comaintainersOf_other hid)
  obtain rfl : id = b.id := not_not.mp hid
  have hknown : userNamed cfg removed = userNamed cfg db := by
    rw [hremoved.frame]
    rfl
  have hadds : ∀ n ∈ users.dedup.filter fun n => !(comaintainerNames db b.id).contains n,
      n ∈ users ∧ n ∉ comaintainerNames db b.id := by
    intro n hn
    obtain ⟨hmem, hnot⟩ := List.mem_filter.mp hn
    exact ⟨List.mem_dedup.mp hmem, by simpa using hnot⟩
  have hnames : NamesApart cfg db b users := by
    refine hapart fun n hn => ?_
    by_cases hlisted : n ∈ comaintainerNames db b.id
    · exact isSome_of_mem_comaintainerNames hlisted
    · rw [← hknown]
      refine (addComaintainers_ok hadded).2 n ?_
      exact List.mem_filter.mpr ⟨List.mem_dedup.mpr hn, by simpa using hlisted⟩
  have hnew : ∀ n ∈ users.dedup.filter fun n => !(comaintainerNames db b.id).contains n,
      ∀ u, userNamed cfg db n = some u → u.id ∉ lineOf db b.id := fun n hn u hu =>
    hnames.not_mem_lineOf hwf (hadds n hn).1 (hadds n hn).2 hu
  obtain ⟨htidy', new, hline', hfrom⟩ := addComaintainers_spec htidy
    ((List.nodup_dedup users).filter _)
    (fun n hn n' hn' => hknown ▸ hnames.distinct n (hadds n hn).1 n' (hadds n' hn').1)
    (fun n hn u hu hmem => by
      rw [hline] at hmem
      exact hnew n hn u (hknown ▸ hu) (List.mem_of_mem_filter hmem)) hadded
  refine ⟨htidy', ?_⟩
  have hnone : new.filter (fun uid => (lineOf db b.id).contains uid) = [] := by
    refine List.filter_eq_nil_iff.mpr fun uid huid => ?_
    obtain ⟨n, hn, u, hu, rfl⟩ := hfrom uid huid
    simpa using hnew n hn u (hknown ▸ hu)
  rw [hline', hline, List.filter_append, hnone, List.append_nil]
  exact List.filter_sublist.trans List.filter_sublist

/-- The form removes names, and then adds names to what is left. -/
theorem comaintainersPost_passes (hwf : WellFormed cfg db) (h : ∀ id, Tidy db id) (user : User)
    (name : String) (users : List String)
    (hapart : ∀ b, baseNamed cfg db name = some b →
      hasCredential user .pkgbaseEditComaintainers [b.maintainerUID] = true →
      (∀ n ∈ users, (userNamed cfg db n).isSome) → NamesApart cfg db b users) (id : Nat) :
    Passes db (pkgbaseComaintainersPost cfg db user name users).2 id := by
  have hsame : Passes db db id := .of_rows (h id) rfl
  refine getPkgOrBase_of (P := fun db' => Passes db db' id) hsame fun b _ _ hnamed => ?_
  refine unless_of (P := fun db' => Passes db db' id) hsame fun hcred => ?_
  simp only
  obtain ⟨htidy, hline⟩ := removeComaintainers_spec cfg (h b.id)
    ((comaintainerNames db b.id).filter fun n => !users.contains n)
  have hremoved := removeComaintainers_restaffs cfg db b.id
    ((comaintainerNames db b.id).filter fun n => !users.contains n)
  split
  · by_cases hid : id = b.id
    · subst hid
      refine .of_sublist htidy ?_
      rw [hline]
      exact List.filter_sublist
    · exact .of_rows (h id) (hremoved.comaintainersOf_other hid)
  · rename_i added hadded
    exact added_passes hwf h (hapart b hnamed hcred) hremoved htidy hline hadded id

/-! ### Disowning -/

/-- Whom a disowning takes off the list by name. -/
def leaver (db : Db) (user : User) (b : PackageBase) : Option Nat :=
  if b.maintainerUID = some user.id then (lineOf db b.id).head?
  else if isComaintainer db b.id user.id then some user.id
  else none

/-- Whoever leaves the list is the last on it. -/
def LastLeaves (db : Db) (user : User) (b : PackageBase) : Prop :=
  ∀ uid, leaver db user b = some uid → (lineOf db b.id).getLast? = some uid

/-- Only one list has changed, and only by people who are gone from it. -/
structure Disowned (b : PackageBase) (db db' : Db) : Prop where
  tidy : Tidy db' b.id
  line : (lineOf db' b.id).Sublist (lineOf db b.id)
  other : ∀ id, id ≠ b.id → comaintainersOf db' id = comaintainersOf db id

theorem Disowned.of_rows {b : PackageBase} (h : Tidy db b.id)
    (hrows : db'.packageComaintainers = db.packageComaintainers) : Disowned b db db' := by
  have hsame : ∀ id, comaintainersOf db' id = comaintainersOf db id := by
    intro id
    unfold comaintainersOf
    rw [hrows]
  refine ⟨h.congr (hsame b.id), ?_, fun id _ => hsame id⟩
  rw [lineOf_congr (hsame b.id)]

theorem Disowned.leave {b : PackageBase} (h : Tidy db b.id) {uid : Nat}
    (hlast : (lineOf db b.id).getLast? = some uid) :
    Disowned b db (removeComaintainer db b.id uid) := by
  refine ⟨removeComaintainer_tidy h hlast, ?_, fun id hne => comaintainersOf_leave_other hne.symm⟩
  rw [lineOf_remove uid h.once]
  exact List.filter_sublist

theorem comaintainersOf_orphan (db : Db) (id : Nat) : comaintainersOf (orphan db id) id = [] := by
  unfold orphan
  rw [comaintainersOf_delete]
  simp

theorem lineOf_orphan (db : Db) (id : Nat) : lineOf (orphan db id) id = [] := by
  unfold lineOf
  rw [byPriority_eq, comaintainersOf_orphan]
  rfl

theorem Disowned.orphan {b : PackageBase} (db : Db) : Disowned b db (orphan db b.id) := by
  have hrestaffs := deleteComaintainers_restaffs (setMaintainer db b.id none) b.id fun _ => true
  refine ⟨⟨?_, ?_⟩, ?_, fun id hne => hrestaffs.comaintainersOf_other hne⟩
  · rw [comaintainersOf_orphan]
    exact List.nodup_nil
  · rw [comaintainersOf_orphan]
    exact Sequential.nil
  · rw [lineOf_orphan]
    exact List.nil_sublist _

theorem Disowned.congr {b : PackageBase} {db₀ : Db}
    (hrows : db₀.packageComaintainers = db.packageComaintainers) (h : Disowned b db₀ db') :
    Disowned b db db' := by
  have hsame : ∀ id, comaintainersOf db₀ id = comaintainersOf db id := by
    intro id
    unfold comaintainersOf
    rw [hrows]
  refine ⟨h.tidy, ?_, fun id hne => (h.other id hne).trans (hsame id)⟩
  rw [← lineOf_congr (hsame b.id)]
  exact h.line

theorem pkgbaseDisownInstance_disowned (cfg : Config) {user : User} {b : PackageBase} (now : Nat)
    (h : Tidy db b.id) (hlast : LastLeaves db user b) :
    Disowned b db (pkgbaseDisownInstance cfg db user b now).2 := by
  unfold pkgbaseDisownInstance
  unfold LastLeaves leaver at hlast
  split
  · rename_i hm
    rw [if_pos hm] at hlast
    show Disowned b db (stepDown db b.id)
    unfold stepDown
    split
    · rename_i next hnext
      have hhead : (lineOf db b.id).head? = some next.usersID := by
        unfold lineOf
        rw [List.head?_map, hnext]
        rfl
      have hrows : (setMaintainer db b.id (some next.usersID)).packageComaintainers =
          db.packageComaintainers := rfl
      have hpromoted : Disowned b db (setMaintainer db b.id (some next.usersID)) :=
        .of_rows h hrows
      exact (Disowned.leave hpromoted.tidy (hlast next.usersID hhead)).congr hrows
    · exact .of_rows h rfl
  rename_i hm
  rw [if_neg hm] at hlast
  split
  · rename_i hco
    rw [if_pos hco] at hlast
    exact .leave h (hlast user.id rfl)
  split
  · obtain ⟨rows, n, heq⟩ := handleRequest_frame cfg db user .orphan b none "" none now
    have hrows : (handleRequest cfg db user .orphan b none "" none now).2.packageComaintainers =
        db.packageComaintainers := by
      rw [heq]
    refine Outcome.andThen_of (.of_rows h hrows) fun _ => ?_
    exact (Disowned.orphan _).congr hrows
  · exact .of_rows h rfl

/-- Disowning takes people off lists, and adds nobody. -/
structure Shrinks (db db' : Db) : Prop where
  tidy : ∀ id, Tidy db' id
  line : ∀ id, (lineOf db' id).Sublist (lineOf db id)

theorem Disowned.shrinks {b : PackageBase} (h : ∀ id, Tidy db id) (hdisowned : Disowned b db db') :
    Shrinks db db' := by
  constructor
  · intro id
    by_cases hid : id = b.id
    · exact hid ▸ hdisowned.tidy
    · exact (h id).congr (hdisowned.other id hid)
  · intro id
    by_cases hid : id = b.id
    · exact hid ▸ hdisowned.line
    · rw [lineOf_congr (hdisowned.other id hid)]

theorem Shrinks.trans {db₁ db₂ db₃ : Db} (h : Shrinks db₁ db₂) (h' : Shrinks db₂ db₃) :
    Shrinks db₁ db₃ :=
  ⟨h'.tidy, fun id => (h'.line id).trans (h.line id)⟩

theorem Shrinks.passes (h : Shrinks db db') (id : Nat) : Passes db db' id :=
  .of_sublist (h.tidy id) (h.line id)

/-- Who leaves one list is not decided by another. -/
theorem LastLeaves.disowned {user : User} {b b' : PackageBase} (hne : b'.id ≠ b.id)
    (hdisowned : Disowned b db db') (h : LastLeaves db user b') : LastLeaves db' user b' := by
  have hrows := hdisowned.other b'.id hne
  have hline := lineOf_congr hrows
  have hco : isComaintainer db' b'.id user.id = isComaintainer db b'.id user.id := by
    rw [Bool.eq_iff_iff, ← mem_lineOf, ← mem_lineOf, hline]
  unfold LastLeaves leaver at h ⊢
  rw [hline, hco]
  exact h

theorem disownAll_shrinks (cfg : Config) {user : User} (now : Nat) :
    ∀ (bases : List PackageBase) (db : Db), bases.Pairwise (fun b b' => b.id ≠ b'.id) →
      (∀ id, Tidy db id) → (∀ b ∈ bases, LastLeaves db user b) →
      Shrinks db (disownAll cfg user now bases db).2
  | [], db, _, h, _ => ⟨h, fun _ => List.Sublist.refl _⟩
  | b :: bases, db, hdistinct, h, hlast => by
      rw [List.pairwise_cons] at hdistinct
      have hdisowned : Disowned b db (pkgbaseDisownInstance cfg db user b now).2 :=
        pkgbaseDisownInstance_disowned cfg now (h b.id) (hlast b (by simp))
      have hfirst := hdisowned.shrinks h
      have hrest := disownAll_shrinks cfg now bases _ hdistinct.2 hfirst.tidy fun b' hb' =>
        (hlast b' (by simp [hb'])).disowned (hdistinct.1 b' hb').symm hdisowned
      have hall := hfirst.trans hrest
      unfold disownAll
      cases hr : pkgbaseDisownInstance cfg db user b now with
      | mk outcome after =>
          rw [hr] at hall hfirst
          rcases outcome with (⟨status, detail⟩ | message | exception) | u
          · exact hfirst
          · exact hall
          · exact hfirst
          · exact hall

theorem disownPost_shrinks (h : ∀ id, Tidy db id) (user : User) (name comments : String)
    (confirm : Bool) (next : String) (now : Nat)
    (hlast : ∀ b, baseNamed cfg db name = some b → optionalComment cfg comments = .ok () →
      confirm = true → LastLeaves db user b) :
    Shrinks db (pkgbaseDisownPost cfg db user name comments confirm next now).2 := by
  have hsame : Shrinks db db := ⟨h, fun _ => List.Sublist.refl _⟩
  refine getPkgOrBase_of (P := Shrinks db) hsame fun b _ _ hnamed => ?_
  refine raiseHttp_of (P := Shrinks db) hsame fun hcomment => ?_
  simp only
  split
  · exact hsame
  refine unless_of (P := Shrinks db) hsame fun hconfirm => ?_
  generalize hdb : (if b.maintainerUID ≠ some user.id ∧
    (comaintainerIDs db b.id).contains (some user.id) = false then
    updateClosureComment cfg db b .orphan comments none else db) = commented
  have hrows : commented.packageComaintainers = db.packageComaintainers := by
    rw [← hdb]
    split
    · obtain ⟨rows, heq⟩ := updateClosureComment_frame cfg db b .orphan comments none
      rw [heq]
    · rfl
  have hcommented : Disowned b db commented := .of_rows (h b.id) hrows
  have hlast' : LastLeaves commented user b := by
    have hline : lineOf commented b.id = lineOf db b.id := by
      unfold lineOf byPriority
      rw [hrows]
    have hco : isComaintainer commented b.id user.id = isComaintainer db b.id user.id := by
      unfold isComaintainer comaintainerIDs
      rw [hrows]
    have hsaid := hlast b hnamed hcomment hconfirm
    unfold LastLeaves leaver at hsaid ⊢
    rw [hline, hco]
    exact hsaid
  have hdisowned := pkgbaseDisownInstance_disowned cfg now hcommented.tidy hlast'
  have hshrinks := (hdisowned.congr hrows).shrinks h
  split
  · rename_i heq
    rw [heq] at hshrinks
    exact hshrinks
  · rename_i outcome _ heq
    rw [Outcome.response_snd]
    exact hshrinks

theorem packagesDisown_shrinks (hwf : WellFormed cfg db) (h : ∀ id, Tidy db id) (user : User)
    (ids : List Nat) (confirm : Bool) (now : Nat)
    (hlast : confirm = true →
      (∀ b ∈ selectedBases db ids,
        hasCredential user .pkgbaseDisown [b.maintainerUID] = true) →
      ∀ b ∈ selectedBases db ids, LastLeaves db user b) :
    Shrinks db (packagesDisown cfg db user ids confirm now).2 := by
  have hsame : Shrinks db db := ⟨h, fun _ => List.Sublist.refl _⟩
  unfold packagesDisown
  simp only
  split
  · exact hsame
  refine unless_of (P := Shrinks db) hsame fun hconfirm => ?_
  split
  · exact hsame
  rename_i hallowed
  have hcred : ∀ b ∈ selectedBases db ids,
      hasCredential user .pkgbaseDisown [b.maintainerUID] = true := by
    intro b hb
    by_contra hdenied
    exact hallowed ⟨b, hb, by simpa using hdenied⟩
  have hall := disownAll_shrinks cfg now _ db (selectedBases_distinct hwf ids) h
    (hlast hconfirm hcred)
  split
  · rename_i heq
    rw [heq] at hall
    exact hall
  · rename_i heq
    rw [heq] at hall
    exact hall
  · rename_i heq
    rw [heq] at hall
    rw [Outcome.response_snd]
    exact hall

end

/-! ### Every run -/

/-- What the site offers for the list of comaintainers. -/
inductive Change
  | comaintainers (uid now : Nat) (name : String) (users : List String)
  | disown (uid now : Nat) (name comments : String) (confirm : Bool) (next : String)
  /-- The bulk action. -/
  | disownAll (uid now : Nat) (ids : List Nat) (confirm : Bool)

def Change.op : Change → Op
  | .comaintainers uid now name users => .post uid now (.comaintainers name users)
  | .disown uid now name comments confirm next =>
      .post uid now (.disown name comments confirm next)
  | .disownAll uid now ids confirm => .post uid now (.packages ids "disown" confirm)

def Change.step (cfg : Config) (db : Db) (c : Change) : Db := Aurweb.step cfg db c.op

/-- Names that are added are new, and whoever leaves is the last in line. -/
def Change.Orderly (cfg : Config) (db : Db) : Change → Prop
  | .comaintainers uid _ name users => ∀ user b, db.user? uid = some user →
      baseNamed cfg db name = some b →
      hasCredential user .pkgbaseEditComaintainers [b.maintainerUID] = true →
      (∀ n ∈ users, (userNamed cfg db n).isSome) → NamesApart cfg db b users
  | .disown uid _ name comments confirm _ => ∀ user b, db.user? uid = some user →
      baseNamed cfg db name = some b → optionalComment cfg comments = .ok () →
      confirm = true → LastLeaves db user b
  | .disownAll uid _ ids confirm => ∀ user, db.user? uid = some user → confirm = true →
      (∀ b ∈ selectedBases db ids, hasCredential user .pkgbaseDisown [b.maintainerUID] = true) →
      ∀ b ∈ selectedBases db ids, LastLeaves db user b

section

variable {cfg : Config} {db db' : Db}

theorem Change.step_passes (hwf : WellFormed cfg db) (h : ∀ id, Tidy db id) {c : Change}
    (hc : c.Orderly cfg db) (id : Nat) : Passes db (c.step cfg db) id := by
  have hsame : Passes db db id := .of_rows (h id) rfl
  cases c with
  | comaintainers uid now name users =>
      simp only [Change.step, Change.op, Aurweb.step]
      cases hu : db.user? uid with
      | none => exact hsame
      | some user =>
          exact comaintainersPost_passes hwf h user name users (fun b => hc user b hu) id
  | disown uid now name comments confirm next =>
      simp only [Change.step, Change.op, Aurweb.step]
      cases hu : db.user? uid with
      | none => exact hsame
      | some user =>
          exact (disownPost_shrinks h user name comments confirm next _
            fun b => hc user b hu).passes id
  | disownAll uid now ids confirm =>
      simp only [Change.step, Change.op, Aurweb.step]
      cases hu : db.user? uid with
      | none => exact hsame
      | some user => exact (packagesDisown_shrinks hwf h user ids confirm _ (hc user hu)).passes id

/-- Lists without repetitions, numbered through. -/
theorem InSequence.tidy (hwf : WellFormed cfg db) (honce : db.comaintainerKeys.Nodup)
    (h : InSequence db) (id : Nat) : Tidy db id := by
  constructor
  · exact once_of_keys honce id
  · by_cases hbase : ∃ b ∈ db.packageBases, b.id = id
    · obtain ⟨b, hb, rfl⟩ := hbase
      exact h b hb
    · have hnone : comaintainersOf db id = [] := by
        refine List.filter_eq_nil_iff.mpr fun c hc hof => hbase ?_
        obtain ⟨b, hb, hid⟩ := hwf.comaintainerBases c hc
        exact ⟨b, hb, hid.trans (beq_iff_eq.mp hof)⟩
      rw [hnone]
      exact Sequential.nil

end

end Aurweb
