/-
What the actions on a package base write.

Each action is a chain of writes, given what its route has checked.  An action on one
base leaves the rows of the others alone, which is what lets a route go through several.
-/
import Aurweb.Proofs.RequestWrites

namespace Aurweb

section

variable {cfg : Config} {may : May} {db : Db}

theorem Writes.wellFormed {db' : Db} (h : Writes cfg may db db') (hwf : WellFormed cfg db) :
    WellFormed cfg db' :=
  h.keeps (fun _ _ hw => hw.wellFormed) hwf

/-! ### Requests of the base -/

theorem updateClosureComment_writes (pkgbase : PackageBase) (reqType : RequestType)
    (comments : String) (target : Option PackageBase) :
    Writes cfg may db (updateClosureComment cfg db pkgbase reqType comments target) := by
  unfold updateClosureComment
  split
  · exact Relation.ReflTransGen.refl
  refine Writes.one (.settle (settles_update fun r _ hp => ?_))
  have hpending : r.status = .pending := by
    simp only [PackageRequest.isPending, Bool.and_eq_true, beq_iff_eq] at hp
    exact hp.1.2.2
  exact ⟨rfl, rfl, rfl, rfl, fun hne => absurd hpending hne, fun h => Or.inl ⟨h, rfl⟩⟩

/-- The comment is all that changes. -/
theorem mem_updateClosureComment {pkgbase : PackageBase} {reqType : RequestType}
    {comments : String} {target : Option PackageBase} {r' : PackageRequest}
    (h : r' ∈ (updateClosureComment cfg db pkgbase reqType comments target).packageRequests) :
    ∃ r ∈ db.packageRequests, r.status = r'.status ∧ r.reqType = r'.reqType ∧
      r.packageBaseID = r'.packageBaseID := by
  unfold updateClosureComment at h
  split at h
  · exact ⟨r', h, rfl, rfl, rfl⟩
  · obtain ⟨r, hr, rfl⟩ := Table.mem_update.mp h
    refine ⟨r, hr, ?_⟩
    split <;> exact ⟨rfl, rfl, rfl⟩

theorem updateClosureComment_frame (cfg : Config) (db : Db) (pkgbase : PackageBase)
    (reqType : RequestType) (comments : String) (target : Option PackageBase) :
    ∃ rows, updateClosureComment cfg db pkgbase reqType comments target =
      { db with packageRequests := rows } := by
  unfold updateClosureComment
  split
  · exact ⟨db.packageRequests, rfl⟩
  · exact ⟨_, rfl⟩

theorem packageBases_updateClosureComment (cfg : Config) (db : Db) (pkgbase : PackageBase)
    (reqType : RequestType) (comments : String) (target : Option PackageBase) :
    (updateClosureComment cfg db pkgbase reqType comments target).packageBases =
      db.packageBases := by
  obtain ⟨rows, heq⟩ := updateClosureComment_frame cfg db pkgbase reqType comments target
  rw [heq]

/-- Whatever of the base is pending is of the type that is about to be handled. -/
def OnlyPending (reqType : RequestType) (b : PackageBase) (db : Db) : Prop :=
  ∀ r ∈ db.packageRequests, r.packageBaseID = some b.id → r.status = .pending →
    r.reqType = reqType

theorem OnlyPending.updateClosureComment {t reqType : RequestType} {b pkgbase : PackageBase}
    {comments : String} {target : Option PackageBase} (h : OnlyPending t b db) :
    OnlyPending t b (updateClosureComment cfg db pkgbase reqType comments target) := by
  intro r' hr' hbase hpending
  obtain ⟨r, hr, hstatus, htype, hid⟩ := mem_updateClosureComment hr'
  rw [← htype]
  exact h r hr (hid.trans hbase) (hstatus.trans hpending)

/-! ### Comaintainers -/

theorem byPriority_nil {baseID : Nat} (h : (byPriority db baseID).head? = none) :
    ∀ c ∈ db.packageComaintainers, c.of baseID = false := by
  intro c hc
  by_contra hof
  have hmem : c ∈ byPriority db baseID := by
    unfold byPriority
    rw [List.mem_insertionSort]
    exact List.mem_filter.mpr ⟨hc, by simpa using hof⟩
  rw [List.head?_eq_none_iff.mp h] at hmem
  simp at hmem

/-- A comaintainer who has been removed is gone. -/
theorem ne_of_mem_removeComaintainer {baseID uid : Nat} {c : PackageComaintainer}
    (hc : c ∈ (removeComaintainer db baseID uid).packageComaintainers)
    (hof : c.of baseID = true) : c.usersID ≠ uid := by
  rintro rfl
  have hkept := (Table.mem_delete.mp hc).2
  simp [hof] at hkept

theorem isComaintainer_iff {baseID uid : Nat} :
    isComaintainer db baseID uid = true ↔
      ∃ c ∈ db.packageComaintainers, c.of baseID = true ∧ c.usersID = uid := by
  simp [isComaintainer, comaintainerIDs, and_assoc]

theorem not_of_isComaintainer {baseID uid : Nat} (h : isComaintainer db baseID uid = false)
    {c : PackageComaintainer} (hc : c ∈ db.packageComaintainers) (hof : c.of baseID = true) :
    c.usersID ≠ uid := by
  rintro rfl
  rw [isComaintainer_iff.mpr ⟨c, hc, hof, rfl⟩] at h
  cases h

theorem stepDown_writes {baseID : Nat} (hmay : may.manage baseID)
    (hmaintained : ∀ b ∈ db.packageBases, b.id = baseID → b.maintainerUID ≠ none) :
    Writes cfg may db (stepDown db baseID) := by
  unfold stepDown
  split
  · -- the two statements are about different tables
    rename_i next _
    have hleave : Write cfg may db (removeComaintainer db baseID next.usersID) :=
      .leave (Or.inl hmay)
    have hengage : Write cfg may (removeComaintainer db baseID next.usersID)
        (setMaintainer (removeComaintainer db baseID next.usersID) baseID (some next.usersID)) :=
      .engage (Or.inr hmaintained) (Or.inr fun c hc hof => ne_of_mem_removeComaintainer hc hof)
    exact (Writes.one hleave).trans (Writes.one hengage)
  · rename_i hnone
    exact Writes.one (.release (Or.inr (byPriority_nil hnone)))

theorem orphan_writes {pkgbase : PackageBase} (hmay : may.manage pkgbase.id)
    (hp : Present pkgbase db) : Writes cfg may db (orphan db pkgbase.id) := by
  obtain ⟨b, hb, hid, -⟩ := hp.exists
  have hgone : ∀ c ∈ Table.delete (fun c : PackageComaintainer => c.of pkgbase.id && true)
      db.packageComaintainers, c.of pkgbase.id = false := by
    intro c hc
    simpa using (Table.mem_delete.mp hc).2
  have hstaff : Write cfg may db (deleteComaintainers db pkgbase.id fun _ => true) := by
    refine .staff hmay ?_ ⟨b, hb, hid⟩ ?_ (Or.inr (Or.inr ?_)) (Or.inr ?_)
    · simp [Table.delete, List.filter_filter]
    · intro c hc hof
      rw [hgone c hc] at hof
      cases hof
    · intro c hc hof
      rw [hgone c hc] at hof
      cases hof
    · intro _ _ _ c hc hof
      rw [hgone c hc] at hof
      cases hof
  exact (Writes.one hstaff).trans (Writes.one (.release (Or.inr hgone)))

/-! ### The actions -/

variable {user : User} {pkgbase : PackageBase} {now : Nat}

theorem Present.handleRequest {b : PackageBase} (h : Present b db) (reqType : RequestType)
    (target : Option PackageBase) (comments : String) (acceptIDs : Option (List Nat)) :
    Present b
      (handleRequest cfg db user reqType pkgbase target comments acceptIDs now).2 := by
  obtain ⟨rows, n, heq⟩ :=
    handleRequest_frame cfg db user reqType pkgbase target comments acceptIDs now
  rw [heq]
  exact h

theorem pkgbaseDisownInstance_writes (hwf : WellFormed cfg db) (hb : pkgbase ∈ db.packageBases)
    (hactor : may.actor = some user.id)
    (hmaintains : pkgbase.maintainerUID = some user.id → may.manage pkgbase.id)
    (hcred : hasCredential user .pkgbaseDisown [] = true → may.manage pkgbase.id) :
    Writes cfg may db (pkgbaseDisownInstance cfg db user pkgbase now).2 := by
  unfold pkgbaseDisownInstance
  split
  · rename_i hm
    refine stepDown_writes (hmaintains hm) fun b hb' hid => ?_
    rw [hwf.base_eq hb' hb hid, hm]
    simp
  split
  · rename_i hco
    exact Writes.one (.leave (Or.inr ⟨hactor, hco⟩))
  split
  · rename_i hc
    have hp := Present.of_mem hb
    refine Outcome.andThen_of (handleRequest_writes hwf hp) fun _ => ?_
    exact (handleRequest_writes hwf hp).trans (orphan_writes (hcred hc) (hp.handleRequest ..))
  · exact Relation.ReflTransGen.refl

theorem Present.setMaintainer {b : PackageBase} (h : Present b db) (id : Nat)
    (uid : Option Nat) : Present b (setMaintainer db id uid) := by
  unfold Present
  rw [baseKeys_setMaintainer]
  exact h

theorem retryClosures_setMaintainer (db : Db) (id : Nat) (uid : Option Nat) (user : User)
    (pkgbase : PackageBase) (target : Option PackageBase) (toAccept toReject : List Nat)
    (now : Nat) :
    retryClosures (setMaintainer db id uid) user pkgbase target toAccept toReject now =
      ((retryClosures db user pkgbase target toAccept toReject now).1,
        setMaintainer (retryClosures db user pkgbase target toAccept toReject now).2 id uid) := by
  unfold retryClosures
  simp only [show (setMaintainer db id uid).packageRequests = db.packageRequests from rfl]
  split <;> rfl

/-- Handling requests and setting the maintainer do not get in each other's way. -/
theorem handleRequest_setMaintainer (cfg : Config) (db : Db) (id : Nat) (uid : Option Nat)
    (user : User) (reqType : RequestType) (pkgbase : PackageBase) (target : Option PackageBase)
    (comments : String) (acceptIDs : Option (List Nat)) (now : Nat) :
    handleRequest cfg (setMaintainer db id uid) user reqType pkgbase target comments acceptIDs
        now =
      ((handleRequest cfg db user reqType pkgbase target comments acceptIDs now).1,
        setMaintainer (handleRequest cfg db user reqType pkgbase target comments acceptIDs now).2
          id uid) := by
  unfold handleRequest
  have hdue : verifyOrphanRequest cfg (setMaintainer db id uid) pkgbase now =
      verifyOrphanRequest cfg db pkgbase now := rfl
  rw [hdue]
  split
  · rfl
  simp only [show (setMaintainer db id uid).packageRequests = db.packageRequests from rfl]
  split
  · exact retryClosures_setMaintainer (insertRequest db _) id uid user pkgbase target _ _ now
  · exact retryClosures_setMaintainer db id uid user pkgbase target _ _ now

/-- An adoption that is granted closes the requests for it. -/
theorem handleRequest_adoption (hwf : WellFormed cfg db) (hp : Present pkgbase db)
    (comments : String) (acceptIDs : Option (List Nat)) :
    (handleRequest cfg db user .adoption pkgbase none comments acceptIDs now).1 = .ok () ∧
      Unrequested (handleRequest cfg db user .adoption pkgbase none comments acceptIDs now).2
        pkgbase.id := by
  have hok : (handleRequest cfg db user .adoption pkgbase none comments acceptIDs now).1 =
      .ok () := by
    rcases handleRequest_cases cfg db user .adoption pkgbase none comments acceptIDs now with
      ⟨e, horphan, -⟩ | ⟨mergeInto, hnone, heq⟩ | heq
    · cases horphan
    · rw [heq]
      refine retryClosures_adoption fun r hr hid => ?_
      rcases mem_insertRequest hr with hr | rfl
      · rcases hid with hid | hid
        · have hlt : r.id < db.nextID := hwf.requests.lt r hr
          have hnew := List.mem_singleton.mp hid
          omega
        · exact (queried_pending (queried_of_mem hwf.requests hr (Or.inr hid))).2.1
      · rfl
    · rw [heq]
      exact retryClosures_adoption fun r hr hid =>
        (queried_pending (queried_of_mem hwf.requests hr hid)).2.1
  refine ⟨hok, fun r hr hbase => ?_⟩
  by_contra hopen
  simp only [PackageRequest.isPending, Bool.and_eq_true, beq_iff_eq, Bool.not_eq_false] at hopen
  obtain ⟨-, -, -, -, -, hother⟩ := handleRequest_pending hwf hp hok hr hopen.2
  exact hother hbase hopen.1

theorem pkgbaseAdoptInstance_writes (hwf : WellFormed cfg db) (hp : Present pkgbase db)
    (pkgreq : Option PackageRequest)
    (hadopt : hasCredential user .pkgbaseAdopt [] = true → may.adopt ∧
      (may.double ∨ isComaintainer db pkgbase.id (grant user pkgreq).1 = false))
    (hfree : hasCredential user .pkgbaseAdopt [] = false →
      ∀ b ∈ db.packageBases, b.id = pkgbase.id → b.maintainerUID = none) :
    Writes cfg may db (pkgbaseAdoptInstance cfg db user pkgbase pkgreq now).2 := by
  unfold pkgbaseAdoptInstance
  split
  · rename_i hc
    obtain ⟨hmay, hdouble⟩ := hadopt hc
    simp only [handleRequest_setMaintainer]
    have hclosed : Unrequested (handleRequest cfg db user .adoption pkgbase none ""
        (some (grant user pkgreq).2) now).2 pkgbase.id :=
      (handleRequest_adoption hwf hp "" (some (grant user pkgreq).2)).2
    obtain ⟨rows, n, hframe⟩ := handleRequest_frame cfg db user .adoption pkgbase none ""
      (some (grant user pkgreq).2) now
    refine (handleRequest_writes hwf hp).trans (Writes.one (.engage (Or.inl ⟨hmay, hclosed⟩) ?_))
    refine hdouble.imp_right fun hother c hc hof => ?_
    rw [hframe] at hc
    exact not_of_isComaintainer hother hc hof
  rename_i hc
  rw [Bool.not_eq_true] at hc
  split
  · exact Relation.ReflTransGen.refl
  · rename_i hnone
    refine file_writes hp _ _ _ fun _ b hb hid => ⟨hfree hc b hb hid, fun r hr hbase => ?_⟩
    have hother := List.any_eq_false.mp (Bool.not_eq_true _ ▸ hnone) r hr
    rw [hid] at hbase
    simpa [PackageRequest.concerns, hbase] using hother

/-- After the requests have been handled, nothing about the base is pending. -/
theorem handleRequest_none_pending (hwf : WellFormed cfg db) (hp : Present pkgbase db)
    {reqType : RequestType} {target : Option PackageBase} {comments : String}
    {acceptIDs : Option (List Nat)} (honly : OnlyPending reqType pkgbase db)
    (hok : (handleRequest cfg db user reqType pkgbase target comments acceptIDs now).1 = .ok ())
    {r' : PackageRequest}
    (hr' : r' ∈
      (handleRequest cfg db user reqType pkgbase target comments acceptIDs now).2.packageRequests)
    (hbase : r'.packageBaseID = some pkgbase.id) : r'.status ≠ .pending := by
  intro hpending
  obtain ⟨r, hr, hstatus, htype, hid, hne⟩ := handleRequest_pending hwf hp hok hr' hpending
  exact hne hbase (htype ▸ honly r hr (hid.trans hbase) hstatus)

theorem pkgbaseDeleteInstance_writes (hwf : WellFormed cfg db) (hp : Present pkgbase db)
    {comments : String} (hmay : may.manage pkgbase.id)
    (honly : may.desert ∨ OnlyPending .deletion pkgbase db) :
    Writes cfg may db (pkgbaseDeleteInstance cfg db user pkgbase comments now).2 := by
  have hhandled : Writes cfg may db
      (handleRequest cfg db user .deletion pkgbase none comments none now).2 :=
    handleRequest_writes hwf hp
  refine Outcome.andThen_of hhandled fun hok => ?_
  have hcommented : Writes cfg may db (updateClosureComment cfg
      (handleRequest cfg db user .deletion pkgbase none comments none now).2 pkgbase .deletion
      comments none) :=
    hhandled.trans (updateClosureComment_writes _ _ _ _)
  refine hcommented.trans (Writes.one ?_)
  refine .delete hmay (honly.imp id fun honly r' hr' hbase => ?_)
  obtain ⟨r, hr, hstatus, -, hid⟩ := mem_updateClosureComment hr'
  rw [← hstatus]
  exact handleRequest_none_pending hwf hp honly hok hr (hid.trans hbase)

theorem pkgbaseMergeInstance_writes (hwf : WellFormed cfg db) (hp : Present pkgbase db)
    {target : PackageBase} (htarget : target ∈ db.packageBases) (hne : pkgbase.id ≠ target.id)
    {comments : String} (hmay : may.manage pkgbase.id)
    (honly : may.desert ∨ OnlyPending .merge pkgbase db) :
    Writes cfg may db (pkgbaseMergeInstance cfg db user pkgbase target comments now).2 := by
  have hhandled : Writes cfg may db
      (handleRequest cfg db user .merge pkgbase (some target) comments none now).2 :=
    handleRequest_writes hwf hp
  refine Outcome.andThen_of hhandled fun hok => hhandled.trans (Writes.one ?_)
  obtain ⟨rows, n, heq⟩ :=
    handleRequest_frame cfg db user .merge pkgbase (some target) comments none now
  refine .merge hmay hne (by rw [heq]; exact htarget) (honly.imp id fun honly r' hr' hbase => ?_)
  exact handleRequest_none_pending hwf hp honly hok hr' hbase

/-! ### Replacing the comaintainers of a base -/

/-- Only comaintainers of one base have changed, and they are accounts. -/
structure Restaffs (id : Nat) (db db' : Db) : Prop where
  frame : db' = { db with packageComaintainers := db'.packageComaintainers }
  other : (db'.packageComaintainers.filter fun c => !c.of id) =
    db.packageComaintainers.filter fun c => !c.of id
  users : (∀ c ∈ db.packageComaintainers, ∃ u ∈ db.users, u.id = c.usersID) →
    ∀ c ∈ db'.packageComaintainers, ∃ u ∈ db.users, u.id = c.usersID

theorem Restaffs.refl (id : Nat) (db : Db) : Restaffs id db db := ⟨rfl, rfl, fun h => h⟩

theorem Restaffs.trans {id : Nat} {db₁ db₂ db₃ : Db} (h : Restaffs id db₁ db₂)
    (h' : Restaffs id db₂ db₃) : Restaffs id db₁ db₃ where
  frame := by
    rw [h'.frame, h.frame]
  other := h'.other.trans h.other
  users hdb := by
    have husers : db₂.users = db₁.users := by rw [h.frame]
    have hrows := h'.users (husers ▸ h.users hdb)
    rwa [husers] at hrows

theorem deleteComaintainers_restaffs (db : Db) (id : Nat) (p : PackageComaintainer → Bool) :
    Restaffs id db (deleteComaintainers db id p) where
  frame := rfl
  other := by
    unfold deleteComaintainers Table.delete
    rw [List.filter_filter]
    refine List.filter_congr fun c _ => ?_
    cases hof : c.of id <;> simp [hof]
  users hdb c hc := hdb c (Table.mem_delete.mp hc).1

theorem rotateComaintainers_restaffs (db : Db) (id : Nat) :
    Restaffs id db (rotateComaintainers db id) where
  frame := rfl
  other := by
    have hdisj : ∀ c : PackageComaintainer, c.of id = true → (!c.of id) = true → False := by
      intro c hc hc'
      simp [hc] at hc'
    unfold rotateComaintainers
    refine Table.filter_update_of_disjoint ?_ hdisj db.packageComaintainers
    exact fun _ => rfl
  users hdb c hc := by
    obtain ⟨c₀, hc₀, rfl⟩ := Table.mem_update.mp hc
    have huser := hdb c₀ hc₀
    split <;> exact huser

theorem insertComaintainer_restaffs (db : Db) {id : Nat} {c : PackageComaintainer}
    (hid : c.of id = true) (huser : ∃ u ∈ db.users, u.id = c.usersID) :
    Restaffs id db (insertComaintainer db c) where
  frame := rfl
  other := by simp [insertComaintainer, hid]
  users hdb c' hc' := by
    rcases List.mem_append.mp hc' with hc' | hc'
    · exact hdb c' hc'
    · rw [List.mem_singleton.mp hc']
      exact huser

theorem removeComaintainers_restaffs (cfg : Config) (db : Db) (id : Nat)
    (usernames : List String) : Restaffs id db (removeComaintainers cfg db id usernames) :=
  (deleteComaintainers_restaffs db id _).trans (rotateComaintainers_restaffs _ id)

theorem addComaintainer_restaffs (pkgbase : PackageBase) (db : Db) {u : User}
    (hu : u ∈ db.users) : Restaffs pkgbase.id db (addComaintainer pkgbase db u) := by
  unfold addComaintainer
  split
  · exact Restaffs.refl _ _
  · exact insertComaintainer_restaffs db (beq_self_eq_true _) ⟨u, hu, rfl⟩

theorem addEach_restaffs (pkgbase : PackageBase) :
    ∀ (us : List User) (db : Db), (∀ u ∈ us, u ∈ db.users) →
      Restaffs pkgbase.id db (us.foldl (addComaintainer pkgbase) db)
  | [], db, _ => Restaffs.refl _ db
  | u :: us, db, hus => by
      have hfirst := addComaintainer_restaffs pkgbase db (hus u (by simp))
      refine hfirst.trans (addEach_restaffs pkgbase us _ fun u' hu' => ?_)
      rw [hfirst.frame]
      exact hus u' (by simp [hu'])

/-- Nobody who is new on the list of the base is its maintainer. -/
def Apart (b : PackageBase) (db db' : Db) : Prop :=
  ∀ c ∈ db'.packageComaintainers, c.of b.id = true → b.maintainerUID = some c.usersID →
    ∃ c₀ ∈ db.packageComaintainers, c₀.of b.id = true ∧ c₀.usersID = c.usersID

theorem Apart.refl (b : PackageBase) (db : Db) : Apart b db db :=
  fun c hc hof _ => ⟨c, hc, hof, rfl⟩

theorem Apart.trans {b : PackageBase} {db₁ db₂ db₃ : Db} (h : Apart b db₁ db₂)
    (h' : Apart b db₂ db₃) : Apart b db₁ db₃ := by
  intro c hc hof hm
  obtain ⟨c₁, hc₁, hof₁, huid₁⟩ := h' c hc hof hm
  obtain ⟨c₀, hc₀, hof₀, huid₀⟩ := h c₁ hc₁ hof₁ (by rw [huid₁]; exact hm)
  exact ⟨c₀, hc₀, hof₀, huid₀.trans huid₁⟩

theorem removeComaintainers_apart (cfg : Config) (db : Db) (b : PackageBase)
    (usernames : List String) : Apart b db (removeComaintainers cfg db b.id usernames) := by
  intro c hc hof _
  obtain ⟨c₀, hc₀, rfl⟩ := Table.mem_update.mp hc
  refine ⟨c₀, (Table.mem_delete.mp hc₀).1, ?_⟩
  split at hof
  · rename_i hof₀
    rw [if_pos hof₀]
    exact ⟨hof₀, rfl⟩
  · rename_i hof₀
    exact absurd hof hof₀

theorem addComaintainer_apart (b : PackageBase) (db : Db) (u : User) :
    Apart b db (addComaintainer b db u) := by
  unfold addComaintainer
  split
  · exact Apart.refl b db
  rename_i hne
  intro c hc hof hm
  rcases List.mem_append.mp hc with hc | hc
  · exact ⟨c, hc, hof, rfl⟩
  · rw [List.mem_singleton.mp hc] at hm
    exact absurd hm hne

theorem addEach_apart (b : PackageBase) :
    ∀ (us : List User) (db : Db), Apart b db (us.foldl (addComaintainer b) db)
  | [], db => Apart.refl b db
  | u :: us, db => (addComaintainer_apart b db u).trans (addEach_apart b us _)

/-- Everybody is added, or nobody is. -/
theorem addComaintainers_ok {db db' : Db} {usernames : List String}
    (h : addComaintainers cfg db pkgbase usernames = .ok db') :
    db' = (usernames.filterMap (userNamed cfg db)).foldl (addComaintainer pkgbase) db ∧
      ∀ name ∈ usernames, (userNamed cfg db name).isSome := by
  unfold addComaintainers at h
  cases hfind : usernames.find? fun name => (userNamed cfg db name).isNone with
  | some name => simp [hfind] at h
  | none =>
      rw [hfind] at h
      refine ⟨(Except.ok.inj h).symm, fun name hname => ?_⟩
      have hnone := List.find?_eq_none.mp hfind name hname
      cases hu : userNamed cfg db name with
      | none => simp [hu] at hnone
      | some u => rfl

theorem addComaintainers_restaffs {db db' : Db} {usernames : List String}
    (h : addComaintainers cfg db pkgbase usernames = .ok db') :
    Restaffs pkgbase.id db db' ∧ Apart pkgbase db db' := by
  obtain ⟨rfl, -⟩ := addComaintainers_ok h
  refine ⟨addEach_restaffs pkgbase _ db fun u hu => ?_, addEach_apart pkgbase _ db⟩
  obtain ⟨name, -, hname⟩ := List.mem_filterMap.mp hu
  exact (userNamed_mem hname).1

/-- A change of who works on a base, by someone who decides about it. -/
theorem Restaffs.writes {db db' : Db} {id : Nat} (h : Restaffs id db db') (hwf : WellFormed cfg db)
    (hmay : may.manage id) (hbase : ∃ b ∈ db.packageBases, b.id = id)
    (hstray : may.stray ∨ (∀ b ∈ db.packageBases, b.id = id → b.maintainerUID ≠ none) ∨
      ∀ c ∈ db'.packageComaintainers, c.of id = true →
        ∃ c₀ ∈ db.packageComaintainers, c₀.of id = true)
    (hdouble : may.double ∨ ∀ b ∈ db.packageBases, b.id = id → Apart b db db') :
    Writes cfg may db db' := by
  have hapart : may.double ∨ ∀ b ∈ db.packageBases, b.id = id →
      ∀ c ∈ db'.packageComaintainers, c.of id = true → b.maintainerUID = some c.usersID →
        ∃ c₀ ∈ db.packageComaintainers, c₀.of id = true ∧ c₀.usersID = c.usersID :=
    hdouble.imp_right fun h b hb hid c hc hof hm => hid ▸ h b hb hid c hc (hid ▸ hof) hm
  rw [h.frame]
  exact Writes.one (.staff hmay h.other hbase
    (fun c hc _ => h.users hwf.comaintainerUsers c hc) hstray hapart)

/-! ### Several bases -/

/-- Going through bases that an action on another base does not disturb. -/
theorem forEachBase_writes {I : PackageBase → Db → Prop} {action : Db → PackageBase → Outcome}
    (hstep : ∀ b db, WellFormed cfg db → I b db → Writes cfg may db (action db b).2)
    (hkeep : ∀ b b' db, b.id ≠ b'.id → WellFormed cfg db → I b db → I b' db →
      (action db b).1 = .ok () → I b' (action db b).2) :
    ∀ (bases : List PackageBase) (db : Db), bases.Pairwise (fun b b' => b.id ≠ b'.id) →
      WellFormed cfg db → (∀ b ∈ bases, I b db) →
      Writes cfg may db (forEachBase action bases db).2
  | [], _, _, _, _ => Relation.ReflTransGen.refl
  | b :: bases, db, hdistinct, hwf, hI => by
      have hb : I b db := hI b (by simp)
      have hfirst := hstep b db hwf hb
      rw [List.pairwise_cons] at hdistinct
      refine Outcome.andThen_of hfirst fun hok => hfirst.trans ?_
      refine forEachBase_writes hstep hkeep bases _ hdistinct.2 (hfirst.wellFormed hwf) ?_
      intro b' hb'
      exact hkeep b b' db (hdistinct.1 b' hb') hwf hb (hI b' (by simp [hb'])) hok

theorem Outcome.andThen_ok {o : Outcome} {next : Db → Outcome}
    (h : (o.andThen next).1 = .ok ()) : o.1 = .ok () ∧ (next o.2).1 = .ok () ∧
      (o.andThen next).2 = (next o.2).2 := by
  unfold Outcome.andThen at *
  cases ho : o.1 with
  | error e => simp [ho] at h
  | ok u =>
      rw [ho] at h
      exact ⟨rfl, h, rfl⟩

theorem Present.deletePackageBase {b : PackageBase} {id : Nat} (h : Present b db)
    (hne : id ≠ b.id) : Present b (db.deletePackageBase id) := by
  obtain ⟨b', hb', hkey⟩ := List.mem_map.mp h
  refine List.mem_map.mpr ⟨b', Table.mem_delete.mpr ⟨hb', ?_⟩, hkey⟩
  rw [(Prod.mk.inj hkey).1]
  simpa using Ne.symm hne

theorem OnlyPending.deletePackageBase {t : RequestType} {b : PackageBase} {id : Nat}
    (h : OnlyPending t b db) : OnlyPending t b (db.deletePackageBase id) := by
  intro r' hr' hbase hpending
  obtain ⟨r, hr, rfl⟩ := Table.mem_update.mp hr'
  by_cases hgone : r.packageBaseID = some id
  · simp [hgone] at hbase
  · simp only [beq_iff_eq, hgone, if_false] at hbase hpending ⊢
    exact h r hr hbase hpending

/-- A deletion that went through is about its own base only. -/
theorem pkgbaseDeleteInstance_keeps (hwf : WellFormed cfg db) (hp : Present pkgbase db)
    {b : PackageBase} (hne : pkgbase.id ≠ b.id) {comments : String}
    (hok : (pkgbaseDeleteInstance cfg db user pkgbase comments now).1 = .ok ()) :
    (Present b db → Present b (pkgbaseDeleteInstance cfg db user pkgbase comments now).2) ∧
    (OnlyPending .deletion b db →
      OnlyPending .deletion b (pkgbaseDeleteInstance cfg db user pkgbase comments now).2) := by
  obtain ⟨hhandled, -, heq⟩ := Outcome.andThen_ok hok
  unfold pkgbaseDeleteInstance
  rw [heq]
  refine ⟨fun hb => ?_, fun honly => ?_⟩
  · have hb' : Present b (handleRequest cfg db user .deletion pkgbase none comments none now).2 :=
      hb.handleRequest .deletion none comments none
    generalize (handleRequest cfg db user .deletion pkgbase none comments none now).2 = handled
      at hb' ⊢
    obtain ⟨rows, hrows⟩ := updateClosureComment_frame cfg handled pkgbase .deletion comments none
    refine Present.deletePackageBase ?_ hne
    rw [hrows]
    exact hb'
  · refine OnlyPending.deletePackageBase (OnlyPending.updateClosureComment ?_)
    intro r' hr' hbase hpending
    obtain ⟨r, hr, hstatus, htype, hid, -⟩ := handleRequest_pending hwf hp hhandled hr' hpending
    rw [← htype]
    exact honly r hr (hid.trans hbase) hstatus

theorem mem_updatePackageBase {b : PackageBase} {id : Nat} {f : PackageBase → PackageBase}
    (h : b ∈ db.packageBases) (hne : id ≠ b.id) : b ∈ (db.updatePackageBase id f).packageBases :=
  Table.mem_update.mpr ⟨b, h, by simp [Ne.symm hne]⟩

/-- Disowning one base leaves the rows of the others as they are. -/
theorem pkgbaseDisownInstance_keeps {b : PackageBase} (hb : b ∈ db.packageBases)
    (hne : pkgbase.id ≠ b.id) :
    b ∈ (pkgbaseDisownInstance cfg db user pkgbase now).2.packageBases := by
  unfold pkgbaseDisownInstance
  split
  · unfold done stepDown
    split <;> exact mem_updatePackageBase hb hne
  split
  · exact hb
  split
  · obtain ⟨rows, n, heq⟩ := handleRequest_frame cfg db user .orphan pkgbase none "" none now
    have hhandled : b ∈
        (handleRequest cfg db user .orphan pkgbase none "" none now).2.packageBases := by
      rw [heq]
      exact hb
    exact Outcome.andThen_of (P := fun db => b ∈ db.packageBases) hhandled
      fun _ => mem_updatePackageBase hhandled hne
  · exact hb

theorem Present.adopt {b : PackageBase} (h : Present b db) (pkgreq : Option PackageRequest) :
    Present b (pkgbaseAdoptInstance cfg db user pkgbase pkgreq now).2 := by
  unfold pkgbaseAdoptInstance
  split
  · exact (h.setMaintainer _ _).handleRequest _ _ _ _
  split <;> exact h

/-- An adoption is not about who else works on a base. -/
theorem pkgbaseAdoptInstance_comaintainers (db : Db) (pkgreq : Option PackageRequest) :
    (pkgbaseAdoptInstance cfg db user pkgbase pkgreq now).2.packageComaintainers =
      db.packageComaintainers := by
  unfold pkgbaseAdoptInstance
  split
  · obtain ⟨rows, n, heq⟩ := handleRequest_frame cfg
      (setMaintainer db pkgbase.id (some (grant user pkgreq).1)) user .adoption pkgbase none ""
      (some (grant user pkgreq).2) now
    have hsame := congrArg Db.packageComaintainers heq
    exact hsame
  split <;> rfl

/-- Who may not adopt changes no base. -/
theorem pkgbaseAdoptInstance_bases (hcred : hasCredential user .pkgbaseAdopt [] = false)
    (pkgreq : Option PackageRequest) :
    (pkgbaseAdoptInstance cfg db user pkgbase pkgreq now).2.packageBases = db.packageBases := by
  unfold pkgbaseAdoptInstance
  rw [if_neg (by simp [hcred])]
  split <;> rfl

end

end Aurweb
