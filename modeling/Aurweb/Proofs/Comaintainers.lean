/-
What the comaintainers form leaves, whichever way it ends.

The form removes whoever is not on the list it was given, numbers the others again, and only
then looks up the names that are new.  A name that nobody has ends it there, so the removal
stays.  Where every name is somebody's, whoever was on both lists is left alone, the
maintainer too.
-/
import Mathlib.Data.List.Pairwise
import Aurweb.Comaintainers
import Aurweb.Proofs.Disowning

namespace Aurweb.Comaintainers

section

variable {cfg : Config} {db : Db} {b : PackageBase} {users : List String}

/-! ### The two lists -/

/-- Somebody who comaintains a base and is left alone by the form is called what the form
says, to the letter. -/
def StaysListed (db : Db) (users : List String) (uid : Nat) : Prop :=
  ∃ u ∈ db.users, u.id = uid ∧ u.username ∈ users

theorem mem_comaintainerNames (hwf : WellFormed cfg db) {id : Nat} {n : String} :
    n ∈ comaintainerNames db id ↔
      ∃ u ∈ db.users, isComaintainer db id u.id = true ∧ u.username = n := by
  constructor
  · intro hn
    obtain ⟨c, hc, hname⟩ := List.mem_filterMap.mp hn
    obtain ⟨u, hu, rfl⟩ := Option.map_eq_some_iff.mp hname
    obtain ⟨hmem, hid⟩ := Db.user?_mem hu
    obtain ⟨hrow, hof⟩ := List.mem_filter.mp hc
    exact ⟨u, hmem, isComaintainer_iff.mpr ⟨c, hrow, hof, hid.symm⟩, rfl⟩
  · rintro ⟨u, hu, hco, rfl⟩
    obtain ⟨c, hc, hof, huid⟩ := isComaintainer_iff.mp hco
    refine List.mem_filterMap.mpr ⟨c, List.mem_filter.mpr ⟨hc, hof⟩, ?_⟩
    rw [(user?_eq_some hwf.users.nodup).mpr ⟨hu, huid.symm⟩]
    rfl

/-- Those whose name is not on the form. -/
def dropped (db : Db) (id : Nat) (users : List String) : List String :=
  (comaintainerNames db id).filter fun username => !users.contains username

/-- Whom the form removes. -/
theorem namedIn_dropped (hwf : WellFormed cfg db) {id : Nat} {u : User} (hu : u ∈ db.users)
    (hco : isComaintainer db id u.id = true) :
    namedIn cfg db (dropped db id users) u.id = true ↔ u.username ∉ users := by
  unfold namedIn dropped
  simp only [List.any_eq_true, Bool.and_eq_true, beq_iff_eq, List.mem_filter, Bool.not_eq_true',
    List.contains_eq_mem, decide_eq_false_iff_not]
  constructor
  · rintro ⟨u', hu', hid, n, ⟨hn, hnot⟩, hsame⟩
    obtain rfl := hwf.users.eq_of_key hu' hu hid
    obtain ⟨u'', hu'', -, rfl⟩ := (mem_comaintainerNames hwf).mp hn
    rwa [hwf.user_eq_of_name hu hu'' hsame]
  · intro hnot
    refine ⟨u, hu, rfl, u.username, ⟨?_, hnot⟩, cfg.sameName_refl _⟩
    exact (mem_comaintainerNames hwf).mpr ⟨u, hu, hco, rfl⟩

/-- What the form has left when it turns to the new names. -/
def kept (cfg : Config) (db : Db) (id : Nat) (users : List String) : Db :=
  removeComaintainers cfg db id (dropped db id users)

theorem isComaintainer_rows {id uid : Nat} :
    isComaintainer db id uid = true ↔ ∃ c ∈ comaintainersOf db id, c.usersID = uid := by
  rw [isComaintainer_iff]
  constructor
  · rintro ⟨c, hc, hof, huid⟩
    exact ⟨c, List.mem_filter.mpr ⟨hc, hof⟩, huid⟩
  · rintro ⟨c, hc, huid⟩
    obtain ⟨hrow, hof⟩ := List.mem_filter.mp hc
    exact ⟨c, hrow, hof, huid⟩

theorem comaintainersOf_kept (cfg : Config) (db : Db) (id : Nat) (users : List String) :
    comaintainersOf (kept cfg db id users) id =
      ((comaintainersOf db id).filter fun c =>
        !namedIn cfg db (dropped db id users) c.usersID).map
          (renumber (deleteComaintainers db id fun c =>
            namedIn cfg db (dropped db id users) c.usersID) id) := by
  unfold kept removeComaintainers
  rw [comaintainersOf_rotate, comaintainersOf_delete]

theorem isComaintainer_kept (hwf : WellFormed cfg db) {id uid : Nat} :
    isComaintainer (kept cfg db id users) id uid = true ↔
      isComaintainer db id uid = true ∧ StaysListed db users uid := by
  rw [isComaintainer_rows, comaintainersOf_kept]
  constructor
  · rintro ⟨c', hc', rfl⟩
    obtain ⟨c, hc, rfl⟩ := List.mem_map.mp hc'
    obtain ⟨hrow, hnot⟩ := List.mem_filter.mp hc
    have hco : isComaintainer db id c.usersID = true := isComaintainer_rows.mpr ⟨c, hrow, rfl⟩
    obtain ⟨u, hu, hid⟩ := hwf.comaintainerUsers c (List.mem_filter.mp hrow).1
    refine ⟨hco, u, hu, hid, ?_⟩
    by_contra hout
    rw [← hid] at hco hnot
    rw [(namedIn_dropped hwf hu hco).mpr hout] at hnot
    cases hnot
  · rintro ⟨hco, u, hu, rfl, hlisted⟩
    obtain ⟨c, hrow, hid⟩ := isComaintainer_rows.mp hco
    refine ⟨_, List.mem_map_of_mem (List.mem_filter.mpr ⟨hrow, ?_⟩), hid⟩
    have hnot : ¬namedIn cfg db (dropped db id users) u.id = true :=
      fun hnamed => (namedIn_dropped hwf hu hco).mp hnamed hlisted
    rw [hid]
    simpa using hnot

/-! ### Adding -/

theorem of_self (uid id priority : Nat) :
    PackageComaintainer.of { usersID := uid, packageBaseID := id, priority } id = true :=
  beq_self_eq_true id

theorem isComaintainer_insert {id uid : Nat} {c : PackageComaintainer} (hof : c.of id = true) :
    isComaintainer (insertComaintainer db c) id uid = true ↔
      isComaintainer db id uid = true ∨ c.usersID = uid := by
  rw [isComaintainer_rows, comaintainersOf_insert db hof, isComaintainer_rows]
  simp [or_and_right, exists_or]

/-- Who can be added: nobody who is there, and nobody twice.  The maintainer is passed over. -/
theorem addEach_ok_iff (b : PackageBase) :
    ∀ (us : List User) (db : Db), (addEach b us db).1 = .ok () ↔
      us.Pairwise (fun u u' => b.maintainerUID ≠ some u.id → u.id ≠ u'.id) ∧
        ∀ u ∈ us, b.maintainerUID ≠ some u.id → isComaintainer db b.id u.id = false := by
  intro us
  induction us with
  | nil => simp [addEach, done]
  | cons u us ih =>
      intro db
      unfold addEach addComaintainer
      rw [List.pairwise_cons, List.forall_mem_cons]
      by_cases hm : b.maintainerUID = some u.id
      · rw [if_pos hm]
        show (addEach b us db).1 = .ok () ↔ _
        rw [ih]
        constructor
        · rintro ⟨hpairwise, hnew⟩
          exact ⟨⟨fun _ _ hne => absurd hm hne, hpairwise⟩, fun hne => absurd hm hne, hnew⟩
        · rintro ⟨⟨-, hpairwise⟩, -, hnew⟩
          exact ⟨hpairwise, hnew⟩
      rw [if_neg hm]
      by_cases hco : isComaintainer db b.id u.id = true
      · rw [if_pos hco]
        constructor
        · intro h
          cases h
        · rintro ⟨-, h, -⟩
          rw [h hm] at hco
          cases hco
      rw [if_neg hco]
      show (addEach b us (insertComaintainer db _)).1 = .ok () ↔ _
      rw [ih]
      have hinsert : ∀ uid, isComaintainer (insertComaintainer db
          { usersID := u.id, packageBaseID := b.id
            priority := latestPriority db b.id + 1 }) b.id uid = false ↔
          isComaintainer db b.id uid = false ∧ u.id ≠ uid := by
        intro uid
        rw [← Bool.not_eq_true, isComaintainer_insert (of_self u.id b.id _), not_or,
          Bool.not_eq_true]
      constructor
      · rintro ⟨hpairwise, hnew⟩
        have hnew' := fun u' hu' hne => (hinsert u'.id).mp (hnew u' hu' hne)
        refine ⟨⟨fun u' hu' _ => ?_, hpairwise⟩, fun _ => by simpa using hco,
          fun u' hu' hne => (hnew' u' hu' hne).1⟩
        by_cases hm' : b.maintainerUID = some u'.id
        · exact fun hid => hm (hid ▸ hm')
        · exact (hnew' u' hu' hm').2
      · rintro ⟨⟨hfirst, hpairwise⟩, -, hnew⟩
        exact ⟨hpairwise, fun u' hu' hne =>
          (hinsert u'.id).mpr ⟨hnew u' hu' hne, hfirst u' hu' hm⟩⟩

/-- Who comaintains the base once all have been added. -/
theorem isComaintainer_addEach (b : PackageBase) {uid : Nat} :
    ∀ (us : List User) (db : Db), (addEach b us db).1 = .ok () →
      (isComaintainer (addEach b us db).2 b.id uid = true ↔
        isComaintainer db b.id uid = true ∨
          b.maintainerUID ≠ some uid ∧ ∃ u ∈ us, u.id = uid) := by
  intro us
  induction us with
  | nil => simp [addEach, done]
  | cons u us ih =>
      intro db hok
      unfold addEach at hok ⊢
      obtain ⟨hfirst, hrest, hafter⟩ := Outcome.andThen_ok hok
      rw [hafter, ih _ hrest]
      unfold addComaintainer at hfirst ⊢
      by_cases hm : b.maintainerUID = some u.id
      · rw [if_pos hm]
        refine or_congr_right (and_congr_right fun hne => ?_)
        constructor
        · rintro ⟨u', hu', hid⟩
          exact ⟨u', List.mem_cons_of_mem _ hu', hid⟩
        · rintro ⟨u', hu', hid⟩
          rcases List.mem_cons.mp hu' with rfl | hu'
          · exact absurd (hid ▸ hm) hne
          · exact ⟨u', hu', hid⟩
      rw [if_neg hm] at hfirst ⊢
      by_cases hco : isComaintainer db b.id u.id = true
      · rw [if_pos hco] at hfirst
        cases hfirst
      rw [if_neg hco]
      show isComaintainer (insertComaintainer db _) b.id uid = true ∨ _ ↔ _
      rw [isComaintainer_insert (of_self u.id b.id _)]
      constructor
      · rintro ((hold | hid) | ⟨hne, u', hu', hid⟩)
        · exact Or.inl hold
        · have hid' : u.id = uid := hid
          exact Or.inr ⟨hid' ▸ hm, u, by simp, hid'⟩
        · exact Or.inr ⟨hne, u', List.mem_cons_of_mem _ hu', hid⟩
      · rintro (hold | ⟨hne, u', hu', hid⟩)
        · exact Or.inl (Or.inl hold)
        · rcases List.mem_cons.mp hu' with rfl | hu'
          · exact Or.inl (Or.inr hid)
          · exact Or.inr ⟨hne, u', hu', hid⟩

/-! ### The form -/

/-- A name on the form is nobody's. -/
def Unknown (cfg : Config) (db : Db) (users : List String) : Prop :=
  ∃ n ∈ users, userNamed cfg db n = none

/-- Two names on the form are of one account that is not the maintainer's. -/
def Collides (cfg : Config) (db : Db) (b : PackageBase) (users : List String) : Prop :=
  ∃ n ∈ users, ∃ n' ∈ users, n ≠ n' ∧ ∃ u, userNamed cfg db n = some u ∧
    userNamed cfg db n' = some u ∧ b.maintainerUID ≠ some u.id

/-- The maintainer is among the comaintainers, and on the form. -/
def KeepsMaintainer (db : Db) (b : PackageBase) (users : List String) : Prop :=
  ∃ u ∈ db.users, b.maintainerUID = some u.id ∧ isComaintainer db b.id u.id = true ∧
    u.username ∈ users

/-- The priorities are what numbering them again makes of them. -/
def InPlace (db : Db) (id : Nat) : Prop :=
  ∀ c ∈ comaintainersOf db id, c.priority = (lineOf db id).idxOf c.usersID + 1

/-- The names the form adds. -/
def added (db : Db) (id : Nat) (users : List String) : List String :=
  users.dedup.filter fun username => !(comaintainerNames db id).contains username

theorem mem_added {id : Nat} {n : String} :
    n ∈ added db id users ↔ n ∈ users ∧ n ∉ comaintainerNames db id := by
  unfold added
  rw [List.mem_filter, List.mem_dedup]
  simp

theorem userNamed_kept (cfg : Config) (db : Db) (id : Nat) (users : List String) :
    userNamed cfg (kept cfg db id users) = userNamed cfg db := by
  unfold kept
  rw [(removeComaintainers_restaffs cfg db id (dropped db id users)).frame]
  rfl

/-- A name that is on the list already is somebody's. -/
theorem unknown_iff (id : Nat) :
    Unknown cfg db users ↔ ∃ n ∈ added db id users, userNamed cfg db n = none := by
  constructor
  · rintro ⟨n, hn, hnone⟩
    refine ⟨n, mem_added.mpr ⟨hn, fun hlisted => ?_⟩, hnone⟩
    have hsome : (userNamed cfg db n).isSome = true := isSome_of_mem_comaintainerNames hlisted
    rw [hnone] at hsome
    cases hsome
  · rintro ⟨n, hn, hnone⟩
    exact ⟨n, (mem_added.mp hn).1, hnone⟩

/-- Names that are somebody's can all be added, unless two of them are one account's. -/
theorem addEach_ok_iff_names (hwf : WellFormed cfg db) :
    (addEach b ((added db b.id users).filterMap (userNamed cfg db))
        (kept cfg db b.id users)).1 = .ok () ↔ ¬Collides cfg db b users := by
  have hnamed : ∀ {n u}, n ∈ comaintainerNames db b.id → userNamed cfg db n = some u →
      u ∈ db.users ∧ isComaintainer db b.id u.id = true ∧ u.username = n := by
    intro n u hn hu
    obtain ⟨u', hu', hco, rfl⟩ := (mem_comaintainerNames hwf).mp hn
    rw [GitServe.userNamed_of_mem hwf hu'] at hu
    obtain rfl := Option.some.inj hu
    exact ⟨hu', hco, rfl⟩
  rw [addEach_ok_iff, List.pairwise_filterMap]
  constructor
  · rintro ⟨hpairwise, hnew⟩ ⟨n, hn, n', hn', hne, u, hu, hu', hm⟩
    -- One that stays on the list, and one that is added.
    have hclash : ∀ {n n' : String}, n ∈ users → n' ∈ users → n ≠ n' →
        userNamed cfg db n = some u → userNamed cfg db n' = some u →
        n ∉ comaintainerNames db b.id := by
      intro n n' hn hn' hne hu hu' hlisted
      obtain ⟨hmem, hco, hname⟩ := hnamed hlisted hu
      have hlisted' : n' ∉ comaintainerNames db b.id := by
        intro hlisted'
        exact hne (hname.symm.trans (hnamed hlisted' hu').2.2)
      have hadded := List.mem_filterMap.mpr ⟨n', mem_added.mpr ⟨hn', hlisted'⟩, hu'⟩
      have hstays : isComaintainer (kept cfg db b.id users) b.id u.id = true :=
        (isComaintainer_kept hwf).mpr ⟨hco, u, hmem, rfl, hname ▸ hn⟩
      rw [hnew u hadded hm] at hstays
      cases hstays
    have hout := hclash hn hn' hne hu hu'
    have hout' := hclash hn' hn hne.symm hu' hu
    have hsymm : Std.Symm fun n n' : String => ∀ u, userNamed cfg db n = some u →
        ∀ u', userNamed cfg db n' = some u' → b.maintainerUID ≠ some u.id → u.id ≠ u'.id := by
      constructor
      intro n n' h u hu u' hu' hm hid
      exact h u' hu' u hu (hid ▸ hm) hid.symm
    exact hpairwise.forall (mem_added.mpr ⟨hn, hout⟩) (mem_added.mpr ⟨hn', hout'⟩) hne u hu u hu' hm
      rfl
  · intro hapart
    constructor
    · have hnodup : (added db b.id users).Nodup := (List.nodup_dedup users).filter _
      refine hnodup.pairwise_of_forall_ne fun n hn n' hn' hne u hu u' hu' hm hid => ?_
      have heq : u' = u :=
        hwf.users.eq_of_key (userNamed_mem hu').1 (userNamed_mem hu).1 hid.symm
      subst heq
      exact hapart ⟨n, (mem_added.mp hn).1, n', (mem_added.mp hn').1, hne, u', hu, hu', hm⟩
    · intro u hu hm
      obtain ⟨n, hn, hname⟩ := List.mem_filterMap.mp hu
      obtain ⟨hin, hout⟩ := mem_added.mp hn
      by_contra hco
      rw [Bool.not_eq_false] at hco
      obtain ⟨hold, u', hu', hid, hlisted⟩ := (isComaintainer_kept hwf).mp hco
      have heq := hwf.users.eq_of_key hu' (userNamed_mem hname).1 hid
      subst heq
      refine hapart ⟨n, hin, u'.username, hlisted, ?_, u', hname,
        GitServe.userNamed_of_mem hwf hu', hm⟩
      rintro rfl
      exact hout ((mem_comaintainerNames hwf).mpr ⟨u', hu', hold, rfl⟩)

/-- A form that nobody minds leaves the rows as they are. -/
theorem comaintainersOf_kept_eq_iff (hwf : WellFormed cfg db) (id : Nat) (users : List String) :
    comaintainersOf (kept cfg db id users) id = comaintainersOf db id ↔
      (∀ n ∈ comaintainerNames db id, n ∈ users) ∧ InPlace db id := by
  have hstays : (∀ n ∈ comaintainerNames db id, n ∈ users) ↔
      ∀ c ∈ comaintainersOf db id, (!namedIn cfg db (dropped db id users) c.usersID) = true := by
    constructor
    · intro h c hc
      obtain ⟨u, hu, hid⟩ := hwf.comaintainerUsers c (List.mem_filter.mp hc).1
      have hco : isComaintainer db id u.id = true := isComaintainer_rows.mpr ⟨c, hc, hid.symm⟩
      have hlisted := h u.username ((mem_comaintainerNames hwf).mpr ⟨u, hu, hco, rfl⟩)
      have hnot : ¬namedIn cfg db (dropped db id users) u.id = true :=
        fun hnamed => (namedIn_dropped hwf hu hco).mp hnamed hlisted
      rw [← hid]
      simpa using hnot
    · intro h n hn
      obtain ⟨u, hu, hco, rfl⟩ := (mem_comaintainerNames hwf).mp hn
      obtain ⟨c, hc, hid⟩ := isComaintainer_rows.mp hco
      by_contra hout
      have hnamed := h c hc
      rw [hid, (namedIn_dropped hwf hu hco).mpr hout] at hnamed
      cases hnamed
  -- Where nobody is removed, the numbers come from the list as it is.
  have hplaces : (∀ c ∈ comaintainersOf db id,
      (!namedIn cfg db (dropped db id users) c.usersID) = true) →
      lineOf (deleteComaintainers db id fun c => namedIn cfg db (dropped db id users) c.usersID)
        id = lineOf db id := by
    intro hall
    apply lineOf_congr
    rw [comaintainersOf_delete]
    exact List.filter_eq_self.mpr hall
  rw [hstays, comaintainersOf_kept]
  constructor
  · intro heq
    have hlength := congrArg List.length heq
    rw [List.length_map] at hlength
    have hall := List.filter_eq_self.mp
      ((List.filter_sublist).eq_of_length hlength)
    rw [List.filter_eq_self.mpr hall] at heq
    refine ⟨hall, fun c hc => ?_⟩
    have hrows : (comaintainersOf db id).map (renumber (deleteComaintainers db id fun c =>
        namedIn cfg db (dropped db id users) c.usersID) id) =
          (comaintainersOf db id).map fun c => c := by
      rw [heq, List.map_id']
    have hrow := List.map_inj_left.mp hrows c hc
    have hpriority := congrArg PackageComaintainer.priority hrow
    unfold renumber at hpriority
    rw [hplaces hall] at hpriority
    exact hpriority.symm
  · rintro ⟨hall, hplace⟩
    rw [List.filter_eq_self.mpr hall]
    refine (List.map_congr_left fun c hc => ?_).trans (List.map_id' _)
    unfold renumber
    rw [hplaces hall, ← hplace c hc]

variable {user : User} {name : String}

theorem post_eq (hnamed : baseNamed cfg db name = some b)
    (hcred : hasCredential user .pkgbaseEditComaintainers [b.maintainerUID] = true) :
    pkgbaseComaintainersPost cfg db user name users =
      answer b (addComaintainers cfg (kept cfg db b.id users) b (added db b.id users)) := by
  unfold pkgbaseComaintainersPost getPkgOrBase
  simp only [hnamed]
  exact if_neg (by simp [hcred])

/-- A name that is nobody's ends the form after the removals. -/
theorem post_unknown (hnamed : baseNamed cfg db name = some b)
    (hcred : hasCredential user .pkgbaseEditComaintainers [b.maintainerUID] = true)
    (h : Unknown cfg db users) :
    ∃ n : String, pkgbaseComaintainersPost cfg db user name users =
      (.render 200 [s!"Invalid user name: {n}"], kept cfg db b.id users) := by
  obtain ⟨n, hn, hnone⟩ := (unknown_iff b.id).mp h
  have hfound : ((added db b.id users).find? fun username =>
      (userNamed cfg (kept cfg db b.id users) username).isNone).isSome = true := by
    rw [userNamed_kept]
    exact List.find?_isSome.mpr ⟨n, hn, by rw [hnone]; rfl⟩
  obtain ⟨n', hn'⟩ := Option.isSome_iff_exists.mp hfound
  refine ⟨n', ?_⟩
  rw [post_eq hnamed hcred]
  unfold addComaintainers
  rw [hn']
  rfl

/-- The search for a name nobody has comes to nothing. -/
theorem find_unknown_eq_none (h : ¬Unknown cfg db users) :
    (added db b.id users).find? (fun username =>
      (userNamed cfg (kept cfg db b.id users) username).isNone) = none := by
  rw [userNamed_kept]
  refine List.find?_eq_none.mpr fun n hn hisNone => h ((unknown_iff b.id).mpr ⟨n, hn, ?_⟩)
  exact Option.isNone_iff_eq_none.mp hisNone

/-- Otherwise the new names are added one by one. -/
theorem post_known (hnamed : baseNamed cfg db name = some b)
    (hcred : hasCredential user .pkgbaseEditComaintainers [b.maintainerUID] = true)
    (h : ¬Unknown cfg db users) :
    pkgbaseComaintainersPost cfg db user name users =
      (addEach b ((added db b.id users).filterMap (userNamed cfg db))
        (kept cfg db b.id users)).response (.redirect s!"/pkgbase/{b.name}") := by
  rw [post_eq hnamed hcred]
  unfold addComaintainers
  rw [find_unknown_eq_none h, userNamed_kept]
  generalize addEach b _ _ = o
  obtain ⟨r, db'⟩ := o
  cases r with
  | ok u => rfl
  | error e => rfl

/-! ### How the form ends -/

theorem response_ok {o : Outcome} (h : o.1 = .ok ()) (success : Response) :
    o.response success = (success, o.2) := by
  unfold Outcome.response
  rw [h]

theorem response_redirect {o : Outcome} {success : Response} {url : String}
    (h : (o.response success).1 = .redirect url) : o.1 = .ok () := by
  obtain ⟨r, db'⟩ := o
  cases r with
  | ok u => rfl
  | error e => cases e <;> cases h

theorem response_ne_render (o : Outcome) (url : String) (status : Nat) (errors : List String) :
    (o.response (.redirect url)).1 ≠ .render status errors := by
  obtain ⟨r, db'⟩ := o
  cases r with
  | ok u => exact nofun
  | error e => cases e <;> exact nofun

/-- Those the form names, once they could all be added. -/
theorem isComaintainer_added (hwf : WellFormed cfg db)
    (hok : (addEach b ((added db b.id users).filterMap (userNamed cfg db))
      (kept cfg db b.id users)).1 = .ok ()) (uid : Nat) :
    isComaintainer (addEach b ((added db b.id users).filterMap (userNamed cfg db))
        (kept cfg db b.id users)).2 b.id uid = true ↔
      (isComaintainer db b.id uid = true ∧ StaysListed db users uid) ∨
        b.maintainerUID ≠ some uid ∧ ∃ n ∈ users, ∃ u, userNamed cfg db n = some u ∧ u.id = uid := by
  rw [isComaintainer_addEach b _ _ hok, isComaintainer_kept hwf]
  constructor
  · rintro (hkept | ⟨hm, u, hu, hid⟩)
    · exact Or.inl hkept
    · obtain ⟨n, hn, hname⟩ := List.mem_filterMap.mp hu
      exact Or.inr ⟨hm, n, (mem_added.mp hn).1, u, hname, hid⟩
  · rintro (hkept | ⟨hm, n, hn, u, hname, hid⟩)
    · exact Or.inl hkept
    · by_cases hlisted : n ∈ comaintainerNames db b.id
      · obtain ⟨u', hu', hco, rfl⟩ := (mem_comaintainerNames hwf).mp hlisted
        rw [GitServe.userNamed_of_mem hwf hu'] at hname
        obtain rfl := Option.some.inj hname
        obtain rfl := hid
        exact Or.inl ⟨hco, u', hu', rfl, hn⟩
      · refine Or.inr ⟨hm, u, List.mem_filterMap.mpr ⟨n, ?_, hname⟩, hid⟩
        exact mem_added.mpr ⟨hn, hlisted⟩

/-! ### Without a collision -/

theorem addEach_eq (b : PackageBase) :
    ∀ (us : List User) (db : Db), (addEach b us db).1 = .ok () →
      addEach b us db = done (us.foldl (Aurweb.addComaintainer b) db) := by
  intro us
  induction us with
  | nil => exact fun _ _ => rfl
  | cons u us ih =>
      intro db hok
      unfold addEach at hok ⊢
      obtain ⟨hfirst, hrest, hafter⟩ := Outcome.andThen_ok hok
      have hstep : (addComaintainer b db u).2 = Aurweb.addComaintainer b db u := by
        unfold addComaintainer Aurweb.addComaintainer at *
        by_cases hm : b.maintainerUID = some u.id
        · rw [if_pos hm, if_pos hm]
          rfl
        rw [if_neg hm] at hfirst ⊢
        by_cases hco : isComaintainer db b.id u.id = true
        · rw [if_pos hco] at hfirst
          cases hfirst
        · rw [if_neg hco, if_neg hm]
          rfl
      have hboth : (addComaintainer b db u).andThen (addEach b us) =
          addEach b us (addComaintainer b db u).2 := by
        unfold Outcome.andThen
        rw [hfirst]
      rw [hboth, ih _ hrest, hstep]
      rfl

/-- Where no two names are of one account, this is the form as it is modelled elsewhere. -/
theorem post_eq_of_apart (hwf : WellFormed cfg db) (hnamed : baseNamed cfg db name = some b)
    (hcred : hasCredential user .pkgbaseEditComaintainers [b.maintainerUID] = true)
    (hknown : ¬Unknown cfg db users) (hapart : ¬Collides cfg db b users) :
    pkgbaseComaintainersPost cfg db user name users =
      Aurweb.pkgbaseComaintainersPost cfg db user name users := by
  have hok := (addEach_ok_iff_names hwf).mpr hapart
  have hadds : Aurweb.addComaintainers cfg (kept cfg db b.id users) b (added db b.id users) =
      .ok (((added db b.id users).filterMap (userNamed cfg db)).foldl (Aurweb.addComaintainer b)
        (kept cfg db b.id users)) := by
    unfold Aurweb.addComaintainers
    rw [find_unknown_eq_none hknown, userNamed_kept]
  rw [post_known hnamed hcred hknown, response_ok hok, addEach_eq b _ _ hok]
  unfold Aurweb.pkgbaseComaintainersPost getPkgOrBase
  simp only [hnamed, hcred]
  unfold kept dropped added at hadds
  simp only [Bool.not_true, Bool.false_eq_true, if_false]
  rw [hadds]
  rfl

end

/-- What the form promises to whoever may use it: an invalid name changes nothing, and without
an error exactly those who were submitted comaintain the base, save for the maintainer. -/
structure KeepsPromise (cfg : Config) (db : Db) (user : User) (name : String)
    (users : List String) (b : PackageBase) : Prop where
  refused : ∀ n : String, (pkgbaseComaintainersPost cfg db user name users).1 =
      .render 200 [s!"Invalid user name: {n}"] →
    comaintainersOf (pkgbaseComaintainersPost cfg db user name users).2 b.id =
      comaintainersOf db b.id
  accepted : ∀ url, (pkgbaseComaintainersPost cfg db user name users).1 = .redirect url →
    ∀ uid, isComaintainer (pkgbaseComaintainersPost cfg db user name users).2 b.id uid = true ↔
      b.maintainerUID ≠ some uid ∧ ∃ n ∈ users, ∃ u, userNamed cfg db n = some u ∧ u.id = uid

end Aurweb.Comaintainers
