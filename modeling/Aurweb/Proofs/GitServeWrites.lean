/-
What an SSH session writes.

A command names its user and its base; both are looked up, and the schema says that there
is at most one of each.  `Acts` ties the session to the row of its account, so that the ad
hoc checks of the commands can be read as the grants the forms go by.
-/
import Aurweb.Proofs.FormWrites

namespace Aurweb.GitServe

/-- The session is this account's. -/
structure Acts (cfg : Config) (db : Db) (s : Session) (user : User) : Prop where
  named : ∀ u ∈ db.users, cfg.sameName u.username s.user = true → u.id = user.id
  privileged : s.privileged = true → user.isElevated = true

section

variable {cfg : Config} {may : May} {db : Db} {user : User} {s : Session}

/-! ### Look-ups -/

theorem withPkgbase_of {P : Db → Prop} {pkgbase : String} {command : PackageBase → Result}
    (h : P db) (hcommand : ∀ b ∈ db.packageBases, cfg.sameName b.name pkgbase = true →
      baseNamed cfg db pkgbase = some b → P (command b).2) :
    P (withPkgbase cfg db pkgbase command).2 := by
  unfold withPkgbase
  split
  · exact h
  · rename_i b hb
    obtain ⟨hmem, hname⟩ := baseNamed_mem hb
    exact hcommand b hmem hname hb

theorem withUser_of {P : Db → Prop} {name : String} {command : User → Result} (h : P db)
    (hcommand : ∀ u ∈ db.users, cfg.sameName u.username name = true → P (command u).2) :
    P (withUser cfg db name command).2 := by
  unfold withUser
  split
  · exact h
  · rename_i u hu
    obtain ⟨hmem, hname⟩ := userNamed_mem hu
    exact hcommand u hmem hname

theorem maintains_of_fullAccess (hwf : WellFormed cfg db) (hs : Acts cfg db s user)
    {pkgbase : String} {b : PackageBase} (hb : b ∈ db.packageBases)
    (hname : cfg.sameName b.name pkgbase = true)
    (h : hasFullAccess cfg db pkgbase s.user = true) : b.maintainerUID = some user.id := by
  obtain ⟨b', hb', hcond⟩ := List.any_eq_true.mp h
  simp only [Bool.and_eq_true, List.any_eq_true, beq_iff_eq] at hcond
  obtain ⟨hname', u, hu, huser, hm⟩ := hcond
  have hsame := Config.sameName_trans hname' (Config.sameName_symm hname)
  rw [hwf.base_eq_of_name hb' hb hsame, hs.named u hu huser] at hm
  exact hm.symm

/-- Write access is that of the maintainer and the comaintainers. -/
theorem works_of_writeAccess (hwf : WellFormed cfg db) (hs : Acts cfg db s user)
    {pkgbase : String} {b : PackageBase} (hb : b ∈ db.packageBases)
    (hname : cfg.sameName b.name pkgbase = true)
    (h : hasWriteAccess cfg db pkgbase s.user = true) :
    b.maintainerUID = some user.id ∨ isComaintainer db b.id user.id = true := by
  obtain ⟨b', hb', hcond⟩ := List.any_eq_true.mp h
  simp only [Bool.and_eq_true, Bool.or_eq_true, List.any_eq_true, beq_iff_eq] at hcond
  obtain ⟨hname', u, hu, huser, haccess⟩ := hcond
  have hsame := Config.sameName_trans hname' (Config.sameName_symm hname)
  rw [hwf.base_eq_of_name hb' hb hsame, hs.named u hu huser] at haccess
  exact haccess.imp_left Eq.symm

/-- Whoever has write access to a base may edit it. -/
theorem edits_of_writeAccess (hwf : WellFormed cfg db) (hs : Acts cfg db s user)
    (hg : Grants db user may) {pkgbase : String} {b : PackageBase} (hb : b ∈ db.packageBases)
    (hname : cfg.sameName b.name pkgbase = true)
    (h : hasWriteAccess cfg db pkgbase s.user = true) : may.edit b.id := by
  rcases works_of_writeAccess hwf hs hb hname h with hm | hco
  · exact hg.manager _ (hg.maintainer b hb hm)
  · exact hg.comaintainer _ hco

theorem mem_getComaintainers {pkgbase name : String} {b : PackageBase}
    (hnamed : baseNamed cfg db pkgbase = some b) (h : name ∈ getComaintainers cfg db pkgbase) :
    ∃ u ∈ db.users, u.username = name ∧ isComaintainer db b.id u.id = true := by
  unfold getComaintainers at h
  rw [hnamed] at h
  obtain ⟨c, hc, hname⟩ := List.mem_filterMap.mp h
  obtain ⟨u, hu, rfl⟩ := Option.map_eq_some_iff.mp hname
  obtain ⟨hmem, hid⟩ := Db.user?_mem hu
  refine ⟨u, hmem, rfl, ?_⟩
  unfold byPriority at hc
  rw [List.mem_insertionSort] at hc
  rw [isComaintainer, List.contains_iff_mem, hid]
  exact List.mem_map_of_mem hc

/-- Every comaintainer is listed by name. -/
theorem getComaintainers_complete (hwf : WellFormed cfg db) {pkgbase : String} {b : PackageBase}
    (hnamed : baseNamed cfg db pkgbase = some b) {c : PackageComaintainer}
    (hc : c ∈ db.packageComaintainers) (hof : c.of b.id = true) :
    ∃ u ∈ db.users, u.id = c.usersID ∧ u.username ∈ getComaintainers cfg db pkgbase := by
  obtain ⟨u, hu, hid⟩ := hwf.comaintainerUsers c hc
  refine ⟨u, hu, hid, ?_⟩
  unfold getComaintainers
  rw [hnamed]
  refine List.mem_filterMap.mpr ⟨c, ?_, ?_⟩
  · unfold byPriority
    rw [List.mem_insertionSort]
    exact List.mem_filter.mpr ⟨hc, hof⟩
  · have hfind : db.user? c.usersID = some u :=
      (user?_eq_some hwf.users.nodup).mpr ⟨hu, hid⟩
    rw [hfind]
    rfl

/-! ### Comaintainers -/

theorem mem_idsOf {usernames : List String} {ids : List Nat}
    (h : idsOf cfg db usernames = some ids) {uid : Nat} (hid : uid ∈ ids) :
    ∃ u ∈ db.users, u.id = uid := by
  obtain ⟨name, -, hname⟩ := Table.exists_of_forall₂ (Table.forall₂_of_mapM_some h) hid
  obtain ⟨u, hu, rfl⟩ := Option.map_eq_some_iff.mp hname
  exact ⟨u, (userNamed_mem hu).1, rfl⟩

theorem idsOf_known {usernames : List String} {ids : List Nat}
    (h : idsOf cfg db usernames = some ids) :
    ∀ name ∈ usernames, (userNamed cfg db name).isSome := by
  intro name hname
  replace h := Table.forall₂_of_mapM_some h
  induction h with
  | nil => simp at hname
  | cons hfirst _ ih =>
      rcases List.mem_cons.mp hname with rfl | hname
      · obtain ⟨u, hu, -⟩ := Option.map_eq_some_iff.mp hfirst
        rw [hu]
        rfl
      · exact ih hname

/-- The row of a listed user is among the ids. -/
theorem mem_idsOf_of_mem (hwf : WellFormed cfg db) {usernames : List String} {ids : List Nat}
    (h : idsOf cfg db usernames = some ids) {u : User} (hu : u ∈ db.users)
    (hname : u.username ∈ usernames) : u.id ∈ ids := by
  replace h := Table.forall₂_of_mapM_some h
  induction h with
  | nil => simp at hname
  | cons hfirst _ ih =>
      rcases List.mem_cons.mp hname with heq | hname
      · obtain ⟨u', hu', rfl⟩ := Option.map_eq_some_iff.mp hfirst
        obtain ⟨hmem, hsame⟩ := userNamed_mem hu'
        rw [← heq] at hsame
        rw [hwf.user_eq_of_name hmem hu hsame]
        simp
      · exact List.mem_cons_of_mem _ (ih hname)

theorem writeComaintainers_restaffs (id : Nat) {uidsOld uidsNew : List Nat}
    (hnew : ∀ uid ∈ uidsNew, ∃ u ∈ db.users, u.id = uid) :
    Restaffs id db (writeComaintainers db id uidsOld uidsNew) where
  frame := rfl
  other := by
    have hdisj : ∀ c : PackageComaintainer,
        (c.of id && (uidsOld.contains c.usersID && uidsNew.contains c.usersID)) = true →
        (!c.of id) = true → False := by
      intro c hc hc'
      rw [Bool.not_eq_true'] at hc'
      simp [hc'] at hc
    have hadded : ((uidsNew.filter fun uid => !uidsOld.contains uid).map fun uid =>
        { usersID := uid, packageBaseID := id,
          priority := uidsNew.idxOf uid + 1 : PackageComaintainer }).filter
          (fun c => !c.of id) = [] := by
      rw [List.filter_map, List.map_eq_nil_iff, List.filter_eq_nil_iff]
      intro uid _
      simp [PackageComaintainer.of]
    unfold writeComaintainers
    simp only
    rw [List.filter_append, hadded, List.append_nil]
    refine (Table.filter_update_of_disjoint ?_ hdisj _).trans ?_
    · exact fun _ => rfl
    unfold Table.delete
    rw [List.filter_filter]
    refine List.filter_congr fun c _ => ?_
    cases hof : c.of id <;> simp [hof]
  users hdb c hc := by
    rcases List.mem_append.mp hc with hc | hc
    · obtain ⟨c₀, hc₀, rfl⟩ := Table.mem_update.mp hc
      have huser := hdb c₀ (Table.mem_delete.mp hc₀).1
      split <;> exact huser
    · obtain ⟨uid, huid, rfl⟩ := List.mem_map.mp hc
      exact hnew uid (List.mem_filter.mp huid).1

/-- Whoever still works on a base was told to, or did before. -/
theorem mem_writeComaintainers {id : Nat} {uidsOld uidsNew : List Nat} {c : PackageComaintainer}
    (hc : c ∈ (writeComaintainers db id uidsOld uidsNew).packageComaintainers)
    (hof : c.of id = true) :
    (∃ c₀ ∈ db.packageComaintainers, c₀.of id = true ∧ c₀.usersID = c.usersID ∧
      (c.usersID ∈ uidsOld → c.usersID ∈ uidsNew)) ∨ c.usersID ∈ uidsNew := by
  rcases List.mem_append.mp hc with hc | hc
  · obtain ⟨c₀, hc₀, rfl⟩ := Table.mem_update.mp hc
    obtain ⟨hmem, hkept⟩ := Table.mem_delete.mp hc₀
    have hof₀ : c₀.of id = true := by
      split at hof <;> exact hof
    have huid : (if (c₀.of id && (uidsOld.contains c₀.usersID && uidsNew.contains c₀.usersID)) = true
        then { c₀ with priority := uidsNew.idxOf c₀.usersID + 1 } else c₀).usersID =
          c₀.usersID := by
      split <;> rfl
    rw [huid]
    refine Or.inl ⟨c₀, hmem, hof₀, rfl, fun hold => ?_⟩
    simpa [hof₀, hold] using hkept
  · obtain ⟨uid, huid, rfl⟩ := List.mem_map.mp hc
    exact Or.inr (List.mem_filter.mp huid).1

/-- What `set-comaintainers` comes down to. -/
theorem setComaintainers_cases (cfg : Config) (db : Db) (pkgbase : String) (userlist : List String)
    (name : String) (privileged : Bool) :
    (pkgbaseSetComaintainers cfg db pkgbase userlist name privileged).2 = db ∨
    ∃ b uidsOld uidsNew, baseNamed cfg db pkgbase = some b ∧
      (privileged = true ∨ hasFullAccess cfg db pkgbase name = true) ∧
      idsOf cfg db (getComaintainers cfg db pkgbase).dedup = some uidsOld ∧
      idsOf cfg db userlist = some uidsNew ∧
      pkgbaseSetComaintainers cfg db pkgbase userlist name privileged =
        finished (writeComaintainers db b.id uidsOld (cfg.setOrder.run uidsNew)) := by
  unfold pkgbaseSetComaintainers withPkgbase
  cases hnamed : baseNamed cfg db pkgbase with
  | none => exact Or.inl rfl
  | some b =>
      by_cases hdenied : (!privileged && !hasFullAccess cfg db pkgbase name) = true
      · exact Or.inl (by simp only [if_pos hdenied]; rfl)
      simp only [if_neg hdenied]
      have hallowed : privileged = true ∨ hasFullAccess cfg db pkgbase name = true := by
        cases privileged with
        | true => exact Or.inl rfl
        | false => exact Or.inr (by simpa using hdenied)
      cases hold : idsOf cfg db (getComaintainers cfg db pkgbase).dedup with
      | none => exact Or.inl rfl
      | some uidsOld =>
          cases hnew : idsOf cfg db userlist with
          | none => exact Or.inl rfl
          | some uidsNew => exact Or.inr ⟨b, uidsOld, uidsNew, rfl, hallowed, rfl, rfl, rfl⟩

theorem manages_of_allowed (hwf : WellFormed cfg db) (hs : Acts cfg db s user)
    (hg : Grants db user may) {pkgbase : String} {b : PackageBase}
    (hnamed : baseNamed cfg db pkgbase = some b)
    (h : s.privileged = true ∨ hasFullAccess cfg db pkgbase s.user = true) :
    may.manage b.id := by
  obtain ⟨hb, hname⟩ := baseNamed_mem hnamed
  rcases h with hpriv | hfull
  · exact hg.elevated (hs.privileged hpriv) _
  · exact hg.maintainer b hb (maintains_of_fullAccess hwf hs hb hname hfull)

/-- The maintainer of the base is put on the list of its comaintainers. -/
def ListsMaintainer (cfg : Config) (db : Db) (pkgbase : String) (userlist : List String) : Prop :=
  ∃ b uids, baseNamed cfg db pkgbase = some b ∧ idsOf cfg db userlist = some uids ∧
    ∃ uid ∈ uids, b.maintainerUID = some uid ∧ isComaintainer db b.id uid = false

theorem pkgbaseSetComaintainers_writes (hwf : WellFormed cfg db) (hs : Acts cfg db s user)
    (hg : Grants db user may) (pkgbase : String) (userlist : List String)
    (hstray : s.privileged = true → StaffsOrphan cfg db pkgbase userlist → may.stray)
    (hdouble : s.privileged = true ∨ hasFullAccess cfg db pkgbase s.user = true →
      ListsMaintainer cfg db pkgbase userlist → may.double) :
    Writes cfg may db
      (pkgbaseSetComaintainers cfg db pkgbase userlist s.user s.privileged).2 := by
  rcases setComaintainers_cases cfg db pkgbase userlist s.user s.privileged with
    heq | ⟨b, uidsOld, uidsNew, hnamed, hallowed, -, hnew', heq⟩
  · rw [heq]
  rw [heq]
  obtain ⟨hb, hname⟩ := baseNamed_mem hnamed
  have hrestaffs : Restaffs b.id db
      (writeComaintainers db b.id uidsOld (cfg.setOrder.run uidsNew)) :=
    writeComaintainers_restaffs b.id fun uid huid => mem_idsOf hnew' (cfg.setOrder.mem.mp huid)
  have hapart : may.double ∨ ∀ b' ∈ db.packageBases, b'.id = b.id →
      Apart b' db (writeComaintainers db b.id uidsOld (cfg.setOrder.run uidsNew)) := by
    by_cases hlists : ListsMaintainer cfg db pkgbase userlist
    · exact Or.inl (hdouble hallowed hlists)
    refine Or.inr fun b' hb' hid c hc hof hm => ?_
    rw [hwf.base_eq hb' hb hid] at hof hm ⊢
    rcases mem_writeComaintainers hc hof with ⟨c₀, hc₀, hof₀, huid, -⟩ | huid
    · exact ⟨c₀, hc₀, hof₀, huid⟩
    · by_contra hnew
      refine hlists ⟨b, uidsNew, hnamed, hnew', c.usersID, cfg.setOrder.mem.mp huid, hm, ?_⟩
      rw [← Bool.not_eq_true, isComaintainer_iff]
      exact hnew
  refine hrestaffs.writes hwf (manages_of_allowed hwf hs hg hnamed hallowed) ⟨b, hb, rfl⟩ ?_ hapart
  by_cases hm : b.maintainerUID = none
  · by_cases hempty : userlist = []
    · refine Or.inr (Or.inr fun c hc hof => ?_)
      rcases mem_writeComaintainers hc hof with ⟨c₀, hc₀, hof₀, -⟩ | huid
      · exact ⟨c₀, hc₀, hof₀⟩
      · have hnil : uidsNew = [] := by simpa [idsOf, hempty] using hnew'.symm
        simp [hnil, cfg.setOrder.mem] at huid
    · refine Or.inl (hstray ?_ ⟨b, hb, hname, hm, hempty, idsOf_known hnew'⟩)
      rcases hallowed with hpriv | hfull
      · exact hpriv
      · rw [maintains_of_fullAccess hwf hs hb hname hfull] at hm
        cases hm
  · refine Or.inr (Or.inl fun b' hb' hid => ?_)
    rw [hwf.base_eq hb' hb hid]
    exact hm

/-! ### Adoption and disowning -/

theorem pkgbaseAdopt_writes (hwf : WellFormed cfg db) (pkgbase name : String) (now : Nat) :
    Writes cfg may db (pkgbaseAdopt cfg db pkgbase name now).2 := by
  refine withPkgbase_of Relation.ReflTransGen.refl fun b hb hname _ => ?_
  refine withUser_of Relation.ReflTransGen.refl fun u _ _ => ?_
  split
  · exact Relation.ReflTransGen.refl
  rename_i horphan
  split
  · exact Relation.ReflTransGen.refl
  rename_i hnone
  refine Writes.one (.file ⟨Or.inl ⟨rfl, rfl⟩, ⟨b, hb, rfl, Config.sameName_symm hname⟩,
    fun _ b' hb' hid => ?_⟩)
  have hsame : b'.id = b.id := (Option.some.inj hid).symm
  rw [hwf.base_eq hb' hb hsame]
  refine ⟨by simpa using horphan, fun r hr hbase => ?_⟩
  have hempty : pkgreqByPkgbase db b .adoption = [] := by simpa using hnone
  rw [pkgreqByPkgbase, List.map_eq_nil_iff, List.filter_eq_nil_iff] at hempty
  simpa [PackageRequest.concerns, hbase] using hempty r hr

theorem closeEach_writes {status : RequestStatus} (hstatus : status ≠ .pending)
    (comments : String) (now : Nat) :
    ∀ (ids : List Nat) (db : Db), ids.Nodup →
      (∀ r ∈ db.packageRequests, r.id ∈ ids → r.status = .pending) →
      Writes cfg may db
        (ids.foldl (fun db reqid => pkgreqClose db reqid status comments now) db)
  | [], _, _, _ => Relation.ReflTransGen.refl
  | id :: ids, db, hnodup, hpending => by
      obtain ⟨hnotin, hnodup⟩ := List.nodup_cons.mp hnodup
      have hfirst : Write cfg may db (pkgreqClose db id status comments now) := by
        refine .settle ?_
        unfold Table.update
        rw [List.forall₂_map_right_iff]
        refine List.forall₂_same.mpr fun r hr => ?_
        split
        · rename_i hid
          have hin : r.id ∈ id :: ids := by rw [beq_iff_eq.mp hid]; exact List.mem_cons_self
          exact Closes.settles ⟨rfl, rfl, rfl, rfl, hstatus, rfl⟩ (hpending r hr hin)
        · exact Settles.refl r
      refine (Writes.one hfirst).trans (closeEach_writes hstatus comments now ids _ hnodup ?_)
      intro r hr hin
      obtain ⟨r₀, hr₀, rfl⟩ := Table.mem_update.mp hr
      by_cases hid : r₀.id = id
      · simp only [hid, beq_self_eq_true, if_true] at hin
        exact absurd (hid ▸ hin) hnotin
      · simp only [beq_iff_eq, hid, if_false] at hin ⊢
        exact hpending r₀ hr₀ (List.mem_cons_of_mem _ hin)

theorem closeEach_frame (status : RequestStatus) (comments : String) (now : Nat) :
    ∀ (ids : List Nat) (db : Db), ∃ rows,
      ids.foldl (fun db reqid => pkgreqClose db reqid status comments now) db =
        { db with packageRequests := rows }
  | [], db => ⟨db.packageRequests, rfl⟩
  | id :: ids, db => by
      obtain ⟨rows, hrows⟩ :=
        closeEach_frame status comments now ids (pkgreqClose db id status comments now)
      exact ⟨rows, hrows⟩

theorem pkgreqByPkgbase_pending (hwf : WellFormed cfg db) (b : PackageBase)
    (reqType : RequestType) :
    (pkgreqByPkgbase db b reqType).Nodup ∧
      ∀ r ∈ db.packageRequests, r.id ∈ pkgreqByPkgbase db b reqType → r.status = .pending := by
  refine ⟨hwf.requests.nodup.sublist (List.filter_sublist.map _), fun r hr hid => ?_⟩
  obtain ⟨r₀, hr₀, heq⟩ := List.mem_map.mp hid
  obtain ⟨hmem, hcond⟩ := List.mem_filter.mp hr₀
  rw [← hwf.requests.eq_of_key hmem hr heq]
  simp only [PackageRequest.isPending, Bool.and_eq_true, beq_iff_eq] at hcond
  exact hcond.2.2

theorem setComaintainers_frame (cfg : Config) (db : Db) (pkgbase : String)
    (userlist : List String) (name : String) (privileged : Bool) : ∃ rows,
    (pkgbaseSetComaintainers cfg db pkgbase userlist name privileged).2 =
      { db with packageComaintainers := rows } := by
  rcases setComaintainers_cases cfg db pkgbase userlist name privileged with
    heq | ⟨b, uidsOld, uidsNew, -, -, -, -, heq⟩
  · exact ⟨db.packageComaintainers, heq⟩
  · exact ⟨_, by rw [heq]; rfl⟩

/-- Only who is on the list works on the base from then on. -/
theorem setComaintainers_listed (hwf : WellFormed cfg db) {pkgbase : String} {b : PackageBase}
    (hnamed : baseNamed cfg db pkgbase = some b) {userlist : List String} {name : String}
    {privileged : Bool}
    (hallowed : privileged = true ∨ hasFullAccess cfg db pkgbase name = true) {u : Handover}
    (hok : (pkgbaseSetComaintainers cfg db pkgbase userlist name privileged).1 = .ok u) :
    ∃ uids, idsOf cfg db userlist = some uids ∧
      ∀ c ∈ (pkgbaseSetComaintainers cfg db pkgbase userlist name
        privileged).2.packageComaintainers, c.of b.id = true → c.usersID ∈ uids := by
  have hcond : ¬(!privileged && !hasFullAccess cfg db pkgbase name) = true := by
    rcases hallowed with h | h <;> simp [h]
  unfold pkgbaseSetComaintainers withPkgbase at hok ⊢
  simp only [hnamed, if_neg hcond] at hok ⊢
  cases hold : idsOf cfg db (getComaintainers cfg db pkgbase).dedup with
  | none => simp [hold] at hok
  | some uidsOld =>
      cases hnew : idsOf cfg db userlist with
      | none => simp [hold, hnew] at hok
      | some uidsNew =>
          refine ⟨uidsNew, rfl, fun c hc hof => cfg.setOrder.mem.mp ?_⟩
          rcases mem_writeComaintainers hc hof with ⟨c₀, hc₀, hof₀, huid, hgone⟩ | hin
          · obtain ⟨u, hu, hid, hlisted⟩ := getComaintainers_complete hwf hnamed hc₀ hof₀
            have hin := mem_idsOf_of_mem hwf hold hu (List.mem_dedup.mpr hlisted)
            rw [hid, huid] at hin
            exact hgone hin
          · exact hin

/-- The transactions of a disowning that follow the closures. -/
theorem handOver_writes (hwf : WellFormed cfg db) (hs : Acts cfg db s user)
    (hg : Grants db user may) {pkgbase : String} {b : PackageBase}
    (hnamed : baseNamed cfg db pkgbase = some b)
    (hallowed : s.privileged = true ∨ hasFullAccess cfg db pkgbase s.user = true)
    {comaintainers : List String} (hmaintained : comaintainers ≠ [] → b.maintainerUID ≠ none)
    (hlisted : ∀ name ∈ comaintainers, name ∈ getComaintainers cfg db pkgbase)
    {next : Option Nat} (hnext : next = none → comaintainers = [])
    (hnext' : next ≠ none → comaintainers ≠ [])
    (hdouble : may.double ∨ ∀ uid uids, next = some uid →
      idsOf cfg db comaintainers.tail = some uids → uid ∉ uids) :
    let staffed := pkgbaseSetComaintainers cfg db pkgbase comaintainers.tail s.user s.privileged
    Writes cfg may db staffed.2 ∧ ∀ u, staffed.1 = .ok u →
      Writes cfg may db (setMaintainer staffed.2 b.id next) := by
  intro staffed
  obtain ⟨hb, hname⟩ := baseNamed_mem hnamed
  have hstaffed : Writes cfg may db staffed.2 := by
    refine pkgbaseSetComaintainers_writes hwf hs hg pkgbase _ (fun _ horphan => ?_)
      fun _ hlists => ?_
    · obtain ⟨b', hb', hname', hm, hne, -⟩ := horphan
      have hsame := Config.sameName_trans hname' (Config.sameName_symm hname)
      rw [hwf.base_eq_of_name hb' hb hsame] at hm
      refine absurd hm (hmaintained fun hnil => hne ?_)
      rw [hnil]
      rfl
    · -- Everybody on the list was on it before.
      obtain ⟨b', uids, hnamed', hids, uid, huid, -, hnot⟩ := hlists
      obtain ⟨name, hmem, hfind⟩ :=
        Table.exists_of_forall₂ (Table.forall₂_of_mapM_some hids) huid
      obtain ⟨u, hu, rfl⟩ := Option.map_eq_some_iff.mp hfind
      obtain ⟨u', hu', hname', hco⟩ :=
        mem_getComaintainers hnamed' (hlisted name (List.mem_of_mem_tail hmem))
      obtain ⟨humem, hsame⟩ := userNamed_mem hu
      rw [hwf.user_eq_of_name humem hu' (by rw [hname']; exact hsame), hco] at hnot
      cases hnot
  refine ⟨hstaffed, fun u hok => hstaffed.tail ?_⟩
  obtain ⟨uids, hids, honly⟩ := setComaintainers_listed hwf hnamed hallowed hok
  cases hn : next with
  | some uid =>
      obtain ⟨rows, heq⟩ :=
        setComaintainers_frame cfg db pkgbase comaintainers.tail s.user s.privileged
      refine .engage (Or.inr fun b' hb' hid => ?_) (hdouble.imp_right fun hout c hc hof => ?_)
      · rw [show staffed.2 = { db with packageComaintainers := rows } from heq] at hb'
        rw [hwf.base_eq hb' hb hid]
        exact hmaintained (hnext' (by rw [hn]; simp))
      · rintro rfl
        exact hout c.usersID uids hn hids (honly c hc hof)
  | none =>
      have hnil : comaintainers = [] := hnext hn
      subst hnil
      obtain rfl : [] = uids := Option.some.inj hids
      refine .release (Or.inr fun c hc => ?_)
      by_contra hof
      have hin := honly c hc (by simpa using hof)
      simp at hin

/-- The comaintainer who is next is on the list a second time. -/
def NextTwice (cfg : Config) (db : Db) (pkgbase : String) : Prop :=
  ∃ name names, getComaintainers cfg db pkgbase = name :: names ∧ name ∈ names

/-- Two names of one account on the list of a base are one name. -/
theorem nextTwice_of_mem (hwf : WellFormed cfg db) {pkgbase name : String} {b : PackageBase}
    (hnamed : baseNamed cfg db pkgbase = some b) {comaintainers : List String}
    (hco : (if hasFullAccess cfg db pkgbase name = true then getComaintainers cfg db pkgbase
      else []) = comaintainers) {uid : Nat} {uids : List Nat}
    (huid : (comaintainers.head?.map fun name =>
      (userNamed cfg db name).map (·.id)).join = some uid)
    (hids : idsOf cfg db comaintainers.tail = some uids) (hin : uid ∈ uids) :
    hasFullAccess cfg db pkgbase name = true ∧ NextTwice cfg db pkgbase := by
  cases comaintainers with
  | nil => simp at huid
  | cons first names =>
      by_cases hfull : hasFullAccess cfg db pkgbase name = true
      · rw [if_pos hfull] at hco
        refine ⟨hfull, first, names, hco, ?_⟩
        simp only [List.head?_cons, Option.map_some, Option.join_some] at huid
        obtain ⟨u, hu, rfl⟩ := Option.map_eq_some_iff.mp huid
        obtain ⟨second, hsecond, hfind⟩ :=
          Table.exists_of_forall₂ (Table.forall₂_of_mapM_some hids) hin
        obtain ⟨v, hv, hvid⟩ := Option.map_eq_some_iff.mp hfind
        -- Both names are the ones in the rows of the accounts.
        have hexact : ∀ (n : String) (w : User), n ∈ getComaintainers cfg db pkgbase →
            userNamed cfg db n = some w → w.username = n := by
          intro n w hn hw
          obtain ⟨w', hw', hname', -⟩ := mem_getComaintainers hnamed hn
          obtain ⟨hmem, hsame⟩ := userNamed_mem hw
          rw [hwf.user_eq_of_name hmem hw' (by rw [hname']; exact hsame)]
          exact hname'
        have huv : v = u := hwf.users.eq_of_key (userNamed_mem hv).1 (userNamed_mem hu).1 hvid
        have hfirst := hexact first u (by rw [hco]; simp) hu
        have hsecond' := hexact second v (by rw [hco]; exact List.mem_cons_of_mem _ hsecond) hv
        rw [← hfirst, ← huv, hsecond']
        exact hsecond
      · rw [if_neg hfull] at hco
        cases hco

theorem pkgbaseDisown_writes (hwf : WellFormed cfg db) (hs : Acts cfg db s user)
    (hg : Grants db user may) (pkgbase : String) (now : Nat)
    (hdouble : hasFullAccess cfg db pkgbase s.user = true → NextTwice cfg db pkgbase →
      may.double) :
    Writes cfg may db (pkgbaseDisown cfg db pkgbase s.user s.privileged now).2 := by
  refine withPkgbase_of Relation.ReflTransGen.refl fun b hb hname hnamed => ?_
  simp only
  split
  · exact Relation.ReflTransGen.refl
  rename_i hdenied
  have hallowed : s.privileged = true ∨ hasFullAccess cfg db pkgbase s.user = true := by
    cases hp : s.privileged with
    | true => exact Or.inl rfl
    | false => exact Or.inr (by simpa [hp] using hdenied)
  obtain ⟨hnodup, hpending⟩ := pkgreqByPkgbase_pending hwf b .orphan
  have hclosed : Writes cfg may db ((pkgreqByPkgbase db b .orphan).foldl (fun db reqid =>
      pkgreqClose db reqid .accepted s!"The user {s.user} disowned the package." now) db) :=
    closeEach_writes (by simp) _ now _ db hnodup hpending
  obtain ⟨rows, hrows⟩ := closeEach_frame .accepted
    s!"The user {s.user} disowned the package." now (pkgreqByPkgbase db b .orphan) db
  rw [hrows] at hclosed ⊢
  have hwf' := hclosed.wellFormed hwf
  have hg' : Grants { db with packageRequests := rows } user may :=
    ⟨hg.actor, hg.elevated, hg.maintainer, hg.manager, hg.comaintainer, hg.editor, hg.flagger⟩
  have hs' : Acts cfg { db with packageRequests := rows } s user := ⟨hs.named, hs.privileged⟩
  generalize hco : (if hasFullAccess cfg db pkgbase s.user = true then
    getComaintainers cfg { db with packageRequests := rows } pkgbase else []) = comaintainers
  have hmaintained : comaintainers ≠ [] → b.maintainerUID ≠ none := by
    intro hne hm
    by_cases hfull : hasFullAccess cfg db pkgbase s.user = true
    · rw [maintains_of_fullAccess hwf hs hb hname hfull] at hm
      cases hm
    · rw [if_neg hfull] at hco
      exact hne hco.symm
  have hlisted : ∀ name ∈ comaintainers,
      name ∈ getComaintainers cfg { db with packageRequests := rows } pkgbase := by
    intro name hmem
    by_cases hfull : hasFullAccess cfg db pkgbase s.user = true
    · rw [if_pos hfull] at hco
      rw [hco]
      exact hmem
    · rw [if_neg hfull] at hco
      rw [← hco] at hmem
      simp at hmem
  have hdouble' : may.double ∨ ∀ uid uids, (comaintainers.head?.map fun name =>
      (userNamed cfg { db with packageRequests := rows } name).map (·.id)).join = some uid →
        idsOf cfg { db with packageRequests := rows } comaintainers.tail = some uids →
          uid ∉ uids := by
    by_cases htwice : hasFullAccess cfg db pkgbase s.user = true ∧ NextTwice cfg db pkgbase
    · exact Or.inl (hdouble htwice.1 htwice.2)
    refine Or.inr fun uid uids huid hids hin => htwice ?_
    exact nextTwice_of_mem hwf' hnamed hco huid hids hin
  split
  · exact hclosed
  rename_i hlookup
  have hnext : ((comaintainers.head?.map fun name =>
      (userNamed cfg { db with packageRequests := rows } name).map (·.id)).join = none →
        comaintainers = []) := by
    intro hnone
    cases comaintainers with
    | nil => rfl
    | cons name names =>
        simp only [List.head?_cons, Option.map_some, Option.join_some] at hnone
        simp [hnone] at hlookup
  have hnext' : ((comaintainers.head?.map fun name =>
      (userNamed cfg { db with packageRequests := rows } name).map (·.id)).join ≠ none →
        comaintainers ≠ []) := by
    rintro hsome rfl
    exact hsome rfl
  obtain ⟨hstaffed, hset⟩ :=
    handOver_writes hwf' hs' hg' hnamed hallowed hmaintained hlisted hnext hnext' hdouble'
  generalize pkgbaseSetComaintainers cfg { db with packageRequests := rows } pkgbase
    comaintainers.tail s.user s.privileged = staffed at hstaffed hset ⊢
  obtain ⟨outcome, after⟩ := staffed
  cases outcome with
  | error e => exact hclosed.trans hstaffed
  | ok u =>
      have hdone := hclosed.trans (hset u rfl)
      exact withUser_of hdone fun _ _ _ => hdone

/-! ### Flags, votes and keywords -/

theorem pkgbaseFlag_writes (pkgbase name comment : String) (now : Nat) :
    Writes cfg may db (pkgbaseFlag cfg db pkgbase name comment now).2 := by
  refine withPkgbase_of Relation.ReflTransGen.refl fun b _ _ _ => ?_
  split
  · exact Relation.ReflTransGen.refl
  refine withUser_of Relation.ReflTransGen.refl fun u _ _ => ?_
  split
  · exact Relation.ReflTransGen.refl
  refine Writes.one (.mark (fun b => ?_) (fun b => ?_) fun b' _ _ => ?_)
  · split <;> exact ⟨rfl, rfl, rfl⟩
  · split <;> rfl
  · by_cases hflag : b'.outOfDateTS = none
    · exact Or.inr (Or.inl (by simp [PackageBase.isOutOfDate, hflag]))
    · exact Or.inr (Or.inr (if_neg hflag))

theorem pkgbaseUnflag_writes (hwf : WellFormed cfg db) (hs : Acts cfg db s user)
    (hg : Grants db user may) (pkgbase : String) :
    Writes cfg may db (pkgbaseUnflag cfg db pkgbase s.user).2 := by
  refine withPkgbase_of Relation.ReflTransGen.refl fun b hb _ hnamed => ?_
  refine withUser_of Relation.ReflTransGen.refl fun u hu huser => ?_
  split
  · rename_i hlisted
    obtain ⟨u', hu', hname', hco⟩ := mem_getComaintainers hnamed (by simpa using hlisted)
    have hid : u'.id = user.id := hs.named u' hu' (by rw [hname']; exact cfg.sameName_refl _)
    refine Writes.one (.mark (fun _ => ⟨rfl, rfl, rfl⟩) (fun _ => rfl) fun _ _ _ => Or.inl ?_)
    exact hg.editor _ (hg.comaintainer _ (hid ▸ hco))
  · refine Writes.one (.mark (fun b => ?_) (fun b => ?_) fun b' hb' hid => ?_)
    · split <;> exact ⟨rfl, rfl, rfl⟩
    · split <;> rfl
    · rw [hwf.base_eq hb' hb hid, hs.named u hu huser]
      by_cases hmine : b.maintainerUID = some user.id ∨ b.flaggerUID = some user.id
      · refine Or.inl ?_
        rcases hmine with hm | hf
        · exact hg.editor _ (hg.manager _ (hg.maintainer b hb hm))
        · exact hg.flagger b hb hf
      · exact Or.inr (Or.inr (if_neg hmine))

/-- A vote counts one. -/
theorem commitVote_writes (hwf : WellFormed cfg db) {b : PackageBase} (hb : b ∈ db.packageBases)
    (uid now : Nat) : Writes cfg may db (commitVote db b.id uid now).2 := by
  unfold commitVote
  split
  · exact Relation.ReflTransGen.refl
  rename_i hnone
  obtain ⟨hbases, hunique, hother⟩ := insertVote_ok hwf hb now (by simpa using hnone)
  refine Writes.one (.ballot (fun _ => ⟨rfl, rfl, rfl⟩) (fun _ => ⟨rfl, rfl⟩) hbases hunique hother
    fun hcounted b' hb' hid => ?_)
  obtain ⟨b₀, hb₀, rfl⟩ := Table.mem_update.mp hb'
  by_cases h : b₀.id = b.id
  · have hold := hcounted b₀ hb₀ h
    simp only [votesOf, Db.updatePackageBase, h, beq_self_eq_true, if_true,
      List.countP_append, List.countP_singleton] at hold ⊢
    omega
  · simp [h] at hid

/-- There is one row for a voter, so deleting it takes one vote away. -/
theorem countP_deleteVote (id uid : Nat) :
    ∀ votes : List PackageVote, (votes.map fun v => (v.usersID, v.packageBaseID)).Nodup →
      (votes.any fun v => v.packageBaseID == id && v.usersID == uid) = true →
      (Table.delete (fun v => v.packageBaseID == id && v.usersID == uid) votes).countP
        (·.packageBaseID == id) + 1 = votes.countP (·.packageBaseID == id)
  | [], _, hvoted => by simp at hvoted
  | v :: votes, hnodup, hvoted => by
      rw [List.map_cons, List.nodup_cons] at hnodup
      obtain ⟨hnew, hnodup⟩ := hnodup
      by_cases hv : (v.packageBaseID == id && v.usersID == uid) = true
      · have hrest : Table.delete (fun v => v.packageBaseID == id && v.usersID == uid) votes =
            votes := by
          refine Table.delete_eq_self fun w hw => ?_
          by_contra hw'
          refine hnew (List.mem_map.mpr ⟨w, hw, ?_⟩)
          simp only [Bool.and_eq_true, beq_iff_eq, Bool.not_eq_false] at hv hw'
          rw [hv.1, hv.2, hw'.1, hw'.2]
        have hbase : v.packageBaseID = id := by simp_all
        unfold Table.delete at hrest ⊢
        rw [List.filter_cons_of_neg (by simp [hv]), hrest, List.countP_cons_of_pos]
        simpa using hbase
      · have hvoted' : (votes.any fun v => v.packageBaseID == id && v.usersID == uid) = true := by
          simpa [hv] using hvoted
        have ih := countP_deleteVote id uid votes hnodup hvoted'
        unfold Table.delete at ih ⊢
        rw [List.filter_cons_of_pos (by rw [Bool.not_eq_true']; exact Bool.not_eq_true _ ▸ hv),
          List.countP_cons, List.countP_cons]
        omega

theorem commitUnvote_writes (hwf : WellFormed cfg db) (id uid : Nat)
    (hvoted : hasPackageVote db id uid = true) :
    Writes cfg may db (commitUnvote db id uid).2 := by
  unfold commitUnvote
  split
  · exact Relation.ReflTransGen.refl
  obtain ⟨hbases, hunique, hother⟩ := deleteVotes_ok hwf id uid
  refine Writes.one (.ballot (fun _ => ⟨rfl, rfl, rfl⟩) (fun _ => ⟨rfl, rfl⟩) hbases hunique hother
    fun hcounted b' hb' hid => ?_)
  obtain ⟨b₀, hb₀, rfl⟩ := Table.mem_update.mp hb'
  by_cases h : b₀.id = id
  · have hold := hcounted b₀ hb₀ h
    have hone := countP_deleteVote id uid db.packageVotes hwf.votes hvoted
    simp only [votesOf, Db.updatePackageBase, h, beq_self_eq_true, if_true] at hold hone ⊢
    omega
  · simp [h] at hid

theorem pkgbaseVote_writes (hwf : WellFormed cfg db) (pkgbase name : String) (now : Nat) :
    Writes cfg may db (pkgbaseVote cfg db pkgbase name now).2 := by
  refine withPkgbase_of Relation.ReflTransGen.refl fun b hb _ _ => ?_
  refine withUser_of Relation.ReflTransGen.refl fun u _ _ => ?_
  split
  · exact Relation.ReflTransGen.refl
  · exact commitVote_writes hwf hb u.id now

theorem pkgbaseUnvote_writes (hwf : WellFormed cfg db) (pkgbase name : String) :
    Writes cfg may db (pkgbaseUnvote cfg db pkgbase name).2 := by
  refine withPkgbase_of Relation.ReflTransGen.refl fun b _ _ _ => ?_
  refine withUser_of Relation.ReflTransGen.refl fun u _ _ => ?_
  split
  · exact Relation.ReflTransGen.refl
  · rename_i hvoted
    exact commitUnvote_writes hwf b.id u.id (by simpa using hvoted)

/-- Nothing is asked about the user. -/
theorem pkgbaseSetKeywords_writes (pkgbase : String) (keywords : List String)
    (hedit : ∀ b, baseNamed cfg db pkgbase = some b → may.edit b.id) :
    Writes cfg may db (pkgbaseSetKeywords cfg db pkgbase keywords).2 := by
  refine withPkgbase_of Relation.ReflTransGen.refl fun b _ _ hnamed => ?_
  split
  · exact Relation.ReflTransGen.refl
  exact replaceKeywords_writes (hedit b hnamed) (fun r hr => beq_iff_eq.mp hr) keywords

/-! ### Sessions -/

theorem dispatch_writes (hwf : WellFormed cfg db) (hs : Acts cfg db s user)
    (hg : Grants db user may) {command : Command}
    (hedit : ∀ pkgbase keywords b, command = .setKeywords pkgbase keywords →
      baseNamed cfg db pkgbase = some b → may.edit b.id)
    (hstray : ∀ pkgbase users, command = .setComaintainers pkgbase users →
      s.privileged = true → StaffsOrphan cfg db pkgbase users → may.stray)
    (hlists : ∀ pkgbase users, command = .setComaintainers pkgbase users →
      s.privileged = true ∨ hasFullAccess cfg db pkgbase s.user = true →
      ListsMaintainer cfg db pkgbase users → may.double)
    (htwice : ∀ pkgbase, command = .disown pkgbase →
      hasFullAccess cfg db pkgbase s.user = true → NextTwice cfg db pkgbase → may.double) :
    Writes cfg may db (dispatch cfg db s command).2 := by
  cases command with
  | uploadPack path =>
      simp only [dispatch]
      split
      · exact Relation.ReflTransGen.refl
      split <;> exact Relation.ReflTransGen.refl
  | receivePack path =>
      simp only [dispatch]
      split
      · exact Relation.ReflTransGen.refl
      split
      · exact Relation.ReflTransGen.refl
      split <;> exact Relation.ReflTransGen.refl
  | setKeywords pkgbase keywords =>
      exact pkgbaseSetKeywords_writes pkgbase keywords fun b => hedit pkgbase keywords b rfl
  | listRepos => exact withUser_of Relation.ReflTransGen.refl fun _ _ _ => Relation.ReflTransGen.refl
  | restore pkgbase =>
      simp only [dispatch]
      unfold validatePkgbase
      split
      · exact Relation.ReflTransGen.refl
      split
      · exact Relation.ReflTransGen.refl
      · exact withUser_of Relation.ReflTransGen.refl fun _ _ _ => Relation.ReflTransGen.refl
  | adopt pkgbase => exact pkgbaseAdopt_writes hwf pkgbase s.user s.now
  | disown pkgbase => exact pkgbaseDisown_writes hwf hs hg pkgbase s.now (htwice pkgbase rfl)
  | flag pkgbase comment => exact pkgbaseFlag_writes pkgbase s.user comment s.now
  | unflag pkgbase => exact pkgbaseUnflag_writes hwf hs hg pkgbase
  | vote pkgbase => exact pkgbaseVote_writes hwf pkgbase s.user s.now
  | unvote pkgbase => exact pkgbaseUnvote_writes hwf pkgbase s.user
  | setComaintainers pkgbase users =>
      exact pkgbaseSetComaintainers_writes hwf hs hg pkgbase users (hstray pkgbase users rfl)
        (hlists pkgbase users rfl)
  | help => exact Relation.ReflTransGen.refl

/-- The command that a session gets to. -/
def Admitted (cfg : Config) (db : Db) (s : Session) (action : String) (args : List String)
    (command : Command) : Prop :=
  (cfg.enableMaintenance && !cfg.maintenanceExceptions.contains s.remoteAddr) = false ∧
    bansMatch db s.remoteAddr = false ∧
    (readonly action args || userEmailVerified cfg (logSSHLogin cfg db s) s.user) = true ∧
    ∃ action' args', normalizeAction action args = .ok (action', args') ∧
      parseAction action' args' = .ok command

/-- A session is turned away, before or after its login is on record, or gets to a command. -/
theorem serve_cases (cfg : Config) (db : Db) (s : Session) (action : String)
    (args : List String) :
    (∃ e, serve cfg db s action args = (.error e, db)) ∨
    (∃ e, serve cfg db s action args = (.error e, logSSHLogin cfg db s)) ∨
    ∃ command, Admitted cfg db s action args command ∧
      serve cfg db s action args = dispatch cfg (logSSHLogin cfg db s) s command := by
  unfold serve
  split
  · exact Or.inl ⟨_, rfl⟩
  rename_i hmaintenance
  split
  · exact Or.inl ⟨_, rfl⟩
  rename_i hbanned
  simp only
  split
  · exact Or.inr (Or.inl ⟨_, rfl⟩)
  rename_i hverified
  cases hnormal : normalizeAction action args with
  | error e => exact Or.inr (Or.inl ⟨e, rfl⟩)
  | ok normalized =>
      obtain ⟨action', args'⟩ := normalized
      simp only
      cases hparse : parseAction action' args' with
      | error e => exact Or.inr (Or.inl ⟨_, rfl⟩)
      | ok command =>
          refine Or.inr (Or.inr ⟨command, ⟨?_, ?_, ?_, action', args', hnormal, hparse⟩, rfl⟩)
          · simpa using hmaintenance
          · simpa using hbanned
          · cases hr : readonly action args with
            | true => rfl
            | false => simpa [hr] using hverified

end

end Aurweb.GitServe
