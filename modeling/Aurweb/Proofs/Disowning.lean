/-
Disowning, on the site and over SSH.

What the two write is the same few operations on a small state: who maintains the base,
who is next in line, and which requests are pending.  Each side is followed to that state
first, and the comparison is then between the operations.  They part where a comaintainer
disowns, who leaves the list on the site and has no say over SSH; where the maintainer
does, and only the SSH command answers the orphan requests; and where a Package Maintainer
does before an orphan request is due, which only the site refuses.
-/
import Mathlib.Data.Finset.Dedup
import Mathlib.Data.Finset.SDiff
import Aurweb.Proofs.Priorities

namespace Aurweb

/-- What a disowning is about. -/
@[ext]
structure Custody where
  maintainer : Option Nat
  /-- The comaintainers, the next in line first. -/
  line : List Nat
  /-- The requests that are pending, about whichever base. -/
  pending : Finset Nat
  deriving DecidableEq

/-- The ids of the pending requests. -/
def pendingIDs (db : Db) : Finset Nat :=
  ((db.packageRequests.filter (·.status == .pending)).map (·.id)).toFinset

def custody (db : Db) (id : Nat) : Custody where
  maintainer := (db.packageBase? id).bind (·.maintainerUID)
  line := lineOf db id
  pending := pendingIDs db

/-- The pending orphan requests of a base. -/
def orphanRequests (db : Db) (b : PackageBase) : Finset Nat :=
  (GitServe.pkgreqByPkgbase db b .orphan).toFinset

namespace Custody

/-- The next in line takes over. -/
def stepDown (c : Custody) : Custody := { c with maintainer := c.line.head?, line := c.line.tail }

def leave (c : Custody) (uid : Nat) : Custody :=
  { c with line := c.line.filter fun v => !(v == uid) }

/-- Nobody is left. -/
def abandon (c : Custody) : Custody := { c with maintainer := none, line := [] }

def settle (c : Custody) (ids : Finset Nat) : Custody := { c with pending := c.pending \ ids }

/-- The same but for the order of the comaintainers. -/
structure Alike (c c' : Custody) : Prop where
  maintainer : c.maintainer = c'.maintainer
  line : c.line.Perm c'.line
  pending : c.pending = c'.pending

end Custody

section

variable {cfg : Config} {db : Db} {user : User} {b : PackageBase} {now : Nat}

/-! ### Statements -/

theorem mem_pendingIDs {id : Nat} :
    id ∈ pendingIDs db ↔ ∃ r ∈ db.packageRequests, r.status = .pending ∧ r.id = id := by
  simp [pendingIDs, and_assoc]

theorem packageBase?_of_mem (hwf : WellFormed cfg db) (hb : b ∈ db.packageBases) :
    db.packageBase? b.id = some b :=
  Table.find?_key hwf.bases.nodup hb

theorem maintainer_setMaintainer (hb : db.packageBase? b.id = some b) (uid : Option Nat) :
    ((setMaintainer db b.id uid).packageBase? b.id).bind (·.maintainerUID) = uid := by
  have hfind : (Table.update (fun b' : PackageBase => b'.id == b.id)
      (fun b' => { b' with maintainerUID := uid }) db.packageBases).find? (·.id == b.id) =
        if b.id = b.id then
          (db.packageBases.find? (·.id == b.id)).map fun b' => { b' with maintainerUID := uid }
        else db.packageBases.find? (·.id == b.id) := by
    apply Table.find?_update
    intro b' hid
    exact hid
  have hrow : db.packageBases.find? (·.id == b.id) = some b := hb
  unfold Db.packageBase? setMaintainer Db.updatePackageBase
  rw [hfind, if_pos rfl, hrow]
  rfl

/-! ### Closing requests -/

/-- A statement that takes one request out of the pending ones. -/
theorem pendingIDs_update (id : Nat) {f : PackageRequest → PackageRequest}
    (hf : ∀ r, (f r).id = r.id ∧ (f r).status ≠ .pending) :
    pendingIDs (updateRequests db (·.id == id) f) = pendingIDs db \ {id} := by
  ext id'
  simp only [Finset.mem_sdiff, mem_pendingIDs, Finset.mem_singleton]
  constructor
  · rintro ⟨r', hr', hpending, rfl⟩
    obtain ⟨r, hr, rfl⟩ := Table.mem_update.mp hr'
    by_cases hid : r.id = id
    · rw [if_pos (beq_iff_eq.mpr hid)] at hpending
      exact absurd hpending (hf r).2
    · rw [if_neg (by simpa using hid)] at hpending ⊢
      exact ⟨⟨r, hr, hpending, rfl⟩, hid⟩
  · rintro ⟨⟨r, hr, hpending, rfl⟩, hid⟩
    refine ⟨r, Table.mem_update.mpr ⟨r, hr, ?_⟩, hpending, rfl⟩
    rw [if_neg (by simpa using hid)]

theorem retryClosures_pendingIDs {closer : User} {pkgbase : PackageBase}
    {target : Option PackageBase} {toAccept toReject : List Nat}
    (hok : (retryClosures db closer pkgbase target toAccept toReject now).1 = .ok ()) :
    pendingIDs (retryClosures db closer pkgbase target toAccept toReject now).2 =
      pendingIDs db \ (toAccept ++ toReject).toFinset := by
  rcases retryClosures_cases db closer pkgbase target toAccept toReject now with
    ⟨e, he⟩ | ⟨rows, hrows, heq⟩
  · rw [he] at hok
    cases hok
  · rw [heq]
    ext id
    simp only [Finset.mem_sdiff, mem_pendingIDs, List.mem_toFinset, List.mem_append]
    constructor
    · rintro ⟨r', hr', hpending, rfl⟩
      obtain ⟨r, hr, -, hcloses, hsame⟩ := Table.exists_of_forall₂ hrows hr'
      by_cases hid : r.id ∈ toAccept ∨ r.id ∈ toReject
      · exact absurd hpending (hcloses hid).status
      · rw [not_or] at hid
        obtain rfl := hsame hid.1 hid.2
        exact ⟨⟨r', hr, hpending, rfl⟩, not_or.mpr hid⟩
    · rintro ⟨⟨r, hr, hpending, rfl⟩, hid⟩
      rw [not_or] at hid
      obtain ⟨r', hr', -, -, hsame⟩ := Table.exists_of_forall₂_left hrows hr
      obtain rfl := hsame hid.1 hid.2
      exact ⟨r', hr', hpending, rfl⟩

/-- Every orphan request on the base is accepted, and no other. -/
theorem acceptIDsOf_orphan (hwf : WellFormed cfg db) (hb : b ∈ db.packageBases) :
    acceptIDsOf cfg db .orphan b none none = GitServe.pkgreqByPkgbase db b .orphan := by
  unfold acceptIDsOf GitServe.pkgreqByPkgbase
  rw [List.filter_filter]
  refine congrArg _ (List.filter_congr fun r hr => ?_)
  simp only [accepts, Option.isSome_none, Bool.false_eq_true, if_false, Bool.true_and, queried]
  by_cases hbase : r.packageBaseID = some b.id
  · obtain ⟨b', hb', hid, hname⟩ := hwf.requestBases r hr b.id hbase
    rw [hwf.base_eq hb' hb hid] at hname
    rw [hname, Bool.and_true]
  · simp [PackageRequest.concerns, hbase]

/-- Where everything is accepted, nothing is rejected. -/
theorem rejectIDsOf_all (cfg : Config) (db : Db) (reqType : RequestType) (b : PackageBase) :
    rejectIDsOf cfg db reqType b none none = [] := by
  refine List.filter_eq_nil_iff.mpr fun id hid => ?_
  have haccepted : id ∈ acceptIDsOf cfg db reqType b none none := by
    have hall : ∀ r ∈ db.packageRequests.filter (queried cfg reqType b),
        accepts cfg none none r = true := fun _ _ => rfl
    unfold acceptIDsOf
    rw [List.filter_eq_self.mpr hall]
    exact hid
  simpa using haccepted

/-- A disowning that is due closes the orphan requests on the base, and no others. -/
theorem handleRequest_due (hwf : WellFormed cfg db) (hb : b ∈ db.packageBases)
    (hdue : verifyOrphanRequest cfg db b now = true) :
    handleRequest cfg db user .orphan b none "" none now =
      retryClosures db user b none (GitServe.pkgreqByPkgbase db b .orphan) [] now := by
  have hids := acceptIDsOf_orphan hwf hb
  have hreject := rejectIDsOf_all cfg db .orphan b
  have hsome : (GitServe.pkgreqByPkgbase db b .orphan).isEmpty = false := by
    obtain ⟨r, hr, hcond⟩ := List.any_eq_true.mp hdue
    rw [Bool.and_eq_true] at hcond
    rw [List.isEmpty_eq_false_iff_exists_mem]
    exact ⟨r.id, List.mem_map_of_mem (List.mem_filter.mpr ⟨hr, hcond.1⟩)⟩
  unfold handleRequest
  rw [if_neg (by simp [hdue])]
  show (if (acceptIDsOf cfg db .orphan b none none).isEmpty = true then _
    else retryClosures db user b none (acceptIDsOf cfg db .orphan b none none)
      (rejectIDsOf cfg db .orphan b none none) now) = _
  rw [hreject, hids, if_neg (by simp [hsome])]

theorem retryClosures_orphan (hwf : WellFormed cfg db) (user : User) (b : PackageBase) (now : Nat) :
    (retryClosures db user b none (GitServe.pkgreqByPkgbase db b .orphan) [] now).1 = .ok () := by
  have horphan : ∀ r ∈ db.packageRequests, r.id ∈ GitServe.pkgreqByPkgbase db b .orphan →
      r.reqType = .orphan := by
    intro r hr hid
    obtain ⟨r₀, hr₀, heq⟩ := List.mem_map.mp hid
    obtain ⟨hmem, hcond⟩ := List.mem_filter.mp hr₀
    rw [← hwf.requests.eq_of_key hmem hr heq]
    simp only [PackageRequest.isPending, Bool.and_eq_true, beq_iff_eq] at hcond
    exact hcond.2.1
  refine retryClosures_ok (fun r hr hid => ?_) fun r _ hid => absurd hid List.not_mem_nil
  rw [horphan r hr hid]
  exact ⟨_, rfl⟩

/-- The orphan requests on the base are answered, and nothing else is written. -/
theorem handleRequest_orphan (hwf : WellFormed cfg db) (user : User) (hb : b ∈ db.packageBases)
    (hdue : verifyOrphanRequest cfg db b now = true) :
    ∃ rows, handleRequest cfg db user .orphan b none "" none now =
        (.ok (), { db with packageRequests := rows }) ∧
      pendingIDs { db with packageRequests := rows } = pendingIDs db \ orphanRequests db b ∧
      ∀ r' ∈ rows, r'.id ∈ orphanRequests db b → r'.status ≠ .pending ∧ r'.closedTS.isSome := by
  rw [handleRequest_due hwf hb hdue]
  have hok := retryClosures_orphan hwf user b now
  have hpending := retryClosures_pendingIDs hok
  rcases retryClosures_cases db user b none (GitServe.pkgreqByPkgbase db b .orphan) [] now with
    ⟨e, he⟩ | ⟨rows, hrows, heq⟩
  · rw [he] at hok
    cases hok
  · rw [heq, List.append_nil] at hpending
    refine ⟨rows, heq, hpending, fun r' hr' hid => ?_⟩
    rw [orphanRequests, List.mem_toFinset] at hid
    obtain ⟨r, -, -, hcloses, hsame⟩ := Table.exists_of_forall₂ hrows hr'
    have hin : r.id ∈ GitServe.pkgreqByPkgbase db b .orphan := by
      by_contra hout
      rw [hsame hout List.not_mem_nil] at hid
      exact hout hid
    have hclosed := hcloses (Or.inl hin)
    exact ⟨hclosed.status, hclosed.closedTS⟩

/-! ### The site -/

theorem custody_setMaintainer (hb : db.packageBase? b.id = some b) (uid : Option Nat) :
    custody (setMaintainer db b.id uid) b.id = { custody db b.id with maintainer := uid } := by
  have hmaintainer := maintainer_setMaintainer hb uid
  unfold custody
  rw [hmaintainer]
  rfl

theorem custody_removeComaintainer (honce : db.comaintainerKeys.Nodup) (id uid : Nat) :
    custody (removeComaintainer db id uid) id = (custody db id).leave uid := by
  have hline := lineOf_remove uid (once_of_keys honce id)
  unfold custody
  rw [hline]
  rfl

theorem custody_orphan (hb : db.packageBase? b.id = some b) :
    custody (orphan db b.id) b.id = (custody db b.id).abandon := by
  have hmaintainer : ((orphan db b.id).packageBase? b.id).bind (·.maintainerUID) = none :=
    maintainer_setMaintainer hb none
  unfold custody
  rw [hmaintainer, lineOf_orphan]
  rfl

theorem custody_stepDown (honce : db.comaintainerKeys.Nodup)
    (hb : db.packageBase? b.id = some b) :
    custody (stepDown db b.id) b.id = (custody db b.id).stepDown := by
  have hnodup := nodup_lineOf (once_of_keys honce b.id)
  unfold stepDown
  split
  · rename_i next hnext
    obtain ⟨rest, hrest⟩ := List.head?_eq_some_iff.mp hnext
    have hline : lineOf db b.id = next.usersID :: rest.map (·.usersID) := by
      unfold lineOf
      rw [hrest, List.map_cons]
    have hkeys : (setMaintainer db b.id (some next.usersID)).comaintainerKeys.Nodup := honce
    rw [custody_removeComaintainer hkeys, custody_setMaintainer hb]
    have hleft : (lineOf db b.id).filter (fun v => !(v == next.usersID)) = (lineOf db b.id).tail := by
      rw [hline] at hnodup ⊢
      rw [List.filter_cons_of_neg (by simp), List.tail_cons]
      refine List.filter_eq_self.mpr fun uid huid => ?_
      have hne : uid ≠ next.usersID := fun heq => (List.nodup_cons.mp hnodup).1 (heq ▸ huid)
      simpa using hne
    refine Custody.ext ?_ hleft rfl
    show some next.usersID = (lineOf db b.id).head?
    rw [hline, List.head?_cons]
  · rename_i hnone
    rw [custody_setMaintainer hb]
    have hline : lineOf db b.id = [] := by
      unfold lineOf
      rw [List.head?_eq_none_iff.mp hnone]
      rfl
    refine Custody.ext ?_ ?_ rfl
    · show none = (lineOf db b.id).head?
      rw [hline, List.head?_nil]
    · show lineOf db b.id = (lineOf db b.id).tail
      rw [hline, List.tail_nil]

theorem pkgbaseDisownInstance_custody (hwf : WellFormed cfg db) (honce : db.comaintainerKeys.Nodup)
    (user : User) (hb : b ∈ db.packageBases) (now : Nat) :
    custody (pkgbaseDisownInstance cfg db user b now).2 b.id =
      if b.maintainerUID = some user.id then (custody db b.id).stepDown
      else if isComaintainer db b.id user.id = true then (custody db b.id).leave user.id
      else if user.isElevated = true ∧ verifyOrphanRequest cfg db b now = true then
        (custody db b.id).abandon.settle (orphanRequests db b)
      else custody db b.id := by
  have hfind := packageBase?_of_mem hwf hb
  unfold pkgbaseDisownInstance
  split
  · exact custody_stepDown honce hfind
  split
  · exact custody_removeComaintainer honce b.id user.id
  rw [hasCredential_elevated rfl]
  by_cases hel : user.isElevated = true
  · rw [if_pos hel]
    by_cases hdue : verifyOrphanRequest cfg db b now = true
    · obtain ⟨rows, hrequest, hpending, -⟩ := handleRequest_orphan hwf user hb hdue
      rw [if_pos ⟨hel, hdue⟩, hrequest]
      have hfind' : Db.packageBase? { db with packageRequests := rows } b.id = some b := hfind
      show custody (orphan { db with packageRequests := rows } b.id) b.id = _
      rw [custody_orphan hfind']
      exact Custody.ext rfl rfl hpending
    · rw [if_neg fun h => hdue h.2]
      have hrefused : handleRequest cfg db user .orphan b none "" none now = (.error
          (.invariant s!"No due existing orphan requests to accept for {b.name}."), db) := by
        unfold handleRequest
        rw [if_pos ⟨rfl, by simpa using hdue⟩]
      rw [hrefused]
      rfl
  · rw [if_neg hel, if_neg fun h => hel h.1]
    rfl

/-- The columns a disowning reads of the requests. -/
def requestColumns (db : Db) : List (Nat × Option Nat × RequestType × RequestStatus × Nat) :=
  db.packageRequests.map fun r => (r.id, r.packageBaseID, r.reqType, r.status, r.requestTS)

theorem pendingIDs_congr {db' : Db} (h : requestColumns db' = requestColumns db) :
    pendingIDs db' = pendingIDs db := by
  have hcolumns : ∀ db, pendingIDs db = (((requestColumns db).filter
      fun r => r.2.2.2.1 == .pending).map Prod.fst).toFinset := by
    intro db
    unfold requestColumns
    rw [List.filter_map, List.map_map]
    rfl
  rw [hcolumns, hcolumns, h]

theorem orphanRequests_congr {db' : Db} (h : requestColumns db' = requestColumns db)
    (b : PackageBase) : orphanRequests db' b = orphanRequests db b := by
  have hcolumns : ∀ db, orphanRequests db b = (((requestColumns db).filter fun r =>
      r.2.1 == some b.id && (r.2.2.1 == .orphan && r.2.2.2.1 == .pending)).map
        Prod.fst).toFinset := by
    intro db
    unfold requestColumns
    rw [List.filter_map, List.map_map]
    rfl
  rw [hcolumns, hcolumns, h]

theorem verifyOrphanRequest_congr {db' : Db} (h : requestColumns db' = requestColumns db)
    (b : PackageBase) : verifyOrphanRequest cfg db' b now = verifyOrphanRequest cfg db b now := by
  have hcolumns : ∀ db, verifyOrphanRequest cfg db b now = (requestColumns db).any fun r =>
      r.2.1 == some b.id && (r.2.2.1 == .orphan && r.2.2.2.1 == .pending) &&
        decide (r.2.2.2.2 + cfg.requestIdleTime < now) := by
    intro db
    unfold requestColumns
    rw [List.any_map]
    rfl
  rw [hcolumns, hcolumns, h]

/-- A comment on the requests changes nothing a disowning reads. -/
theorem updateClosureComment_same (hwf : WellFormed cfg db) (comments : String) :
    ∃ rows, updateClosureComment cfg db b .orphan comments none =
        { db with packageRequests := rows } ∧
      WellFormed cfg { db with packageRequests := rows } ∧
      requestColumns { db with packageRequests := rows } = requestColumns db := by
  unfold updateClosureComment
  split
  · exact ⟨db.packageRequests, rfl, hwf, rfl⟩
  · refine ⟨_, rfl, hwf.congr rfl rfl ?_ rfl rfl (Nat.le_refl _), ?_⟩
    · unfold Db.requestKeys
      refine Table.map_update ?_ _
      intro r
      rfl
    · unfold requestColumns
      refine Table.map_update ?_ _
      intro r
      rfl

/-- Whoever is refused is none of those who would change anything. -/
theorem strange_of_denied
    (h : ¬hasCredential user .pkgbaseDisown (b.maintainerUID :: comaintainerIDs db b.id) = true) :
    b.maintainerUID ≠ some user.id ∧ ¬isComaintainer db b.id user.id = true ∧
      ¬user.isElevated = true := by
  unfold hasCredential at h
  rw [List.contains_cons, Bool.or_eq_true, Bool.or_eq_true, not_or, not_or] at h
  obtain ⟨⟨hm, hco⟩, hel⟩ := h
  refine ⟨fun heq => hm ?_, hco, hel⟩
  rw [heq]
  exact beq_self_eq_true _

/-- The form of the site disowns once the requests have the comment. -/
theorem pkgbaseDisownPost_snd (hwf : WellFormed cfg db) {user : User} {name : String}
    (hnamed : baseNamed cfg db name = some b) {comments : String}
    (hcomment : optionalComment cfg comments = .ok ()) (next : String) (now : Nat)
    (hcred : hasCredential user .pkgbaseDisown (b.maintainerUID :: comaintainerIDs db b.id) = true) :
    ∃ rows, WellFormed cfg { db with packageRequests := rows } ∧
      requestColumns { db with packageRequests := rows } = requestColumns db ∧
      (pkgbaseDisownPost cfg db user name comments true next now).2 =
        (pkgbaseDisownInstance cfg { db with packageRequests := rows } user b now).2 := by
  obtain ⟨rows, hcommented, hwf', hcolumns⟩ : ∃ rows,
      (if b.maintainerUID ≠ some user.id ∧
          (comaintainerIDs db b.id).contains (some user.id) = false then
        updateClosureComment cfg db b .orphan comments none else db) =
          { db with packageRequests := rows } ∧
        WellFormed cfg { db with packageRequests := rows } ∧
        requestColumns { db with packageRequests := rows } = requestColumns db := by
    split
    · exact updateClosureComment_same hwf comments
    · exact ⟨db.packageRequests, rfl, hwf, rfl⟩
  refine ⟨rows, hwf', hcolumns, ?_⟩
  unfold pkgbaseDisownPost getPkgOrBase
  simp only [hnamed, hcomment, raiseHttp]
  rw [if_neg (by simp [hcred]), if_neg (by simp), hcommented]
  split
  · rename_i heq
    rw [heq]
  · rw [Outcome.response_snd]

theorem pkgbaseDisownPost_custody (hwf : WellFormed cfg db) (honce : db.comaintainerKeys.Nodup)
    (user : User) {name : String} (hnamed : baseNamed cfg db name = some b) {comments : String}
    (hcomment : optionalComment cfg comments = .ok ()) (next : String) (now : Nat) :
    custody (pkgbaseDisownPost cfg db user name comments true next now).2 b.id =
      if b.maintainerUID = some user.id then (custody db b.id).stepDown
      else if isComaintainer db b.id user.id = true then (custody db b.id).leave user.id
      else if user.isElevated = true ∧ verifyOrphanRequest cfg db b now = true then
        (custody db b.id).abandon.settle (orphanRequests db b)
      else custody db b.id := by
  by_cases hcred : hasCredential user .pkgbaseDisown
      (b.maintainerUID :: comaintainerIDs db b.id) = true
  · obtain ⟨rows, hwf', hcolumns, heq⟩ :=
      pkgbaseDisownPost_snd hwf hnamed hcomment next now hcred
    have hcustody : custody { db with packageRequests := rows } b.id = custody db b.id :=
      Custody.ext rfl rfl (pendingIDs_congr hcolumns)
    have hinstance :=
      pkgbaseDisownInstance_custody hwf' honce user (baseNamed_mem hnamed).1 now
    rw [hcustody, verifyOrphanRequest_congr hcolumns, orphanRequests_congr hcolumns] at hinstance
    rw [heq]
    exact hinstance
  · obtain ⟨hm, hco, hel⟩ := strange_of_denied hcred
    have hrefused : (pkgbaseDisownPost cfg db user name comments true next now).2 = db := by
      unfold pkgbaseDisownPost getPkgOrBase
      simp only [hnamed, hcomment, raiseHttp]
      rw [if_pos (by simpa using hcred)]
    rw [hrefused, if_neg hm, if_neg hco, if_neg fun h => hel h.1]

/-! ### The SSH command -/

namespace GitServe

theorem userNamed_of_mem (hwf : WellFormed cfg db) {u : User} (hu : u ∈ db.users) :
    userNamed cfg db u.username = some u := by
  cases hfind : userNamed cfg db u.username with
  | none =>
      have hno := List.find?_eq_none.mp hfind u hu
      exact absurd (cfg.sameName_refl u.username) hno
  | some u' =>
      obtain ⟨hmem, hsame⟩ := userNamed_mem hfind
      rw [hwf.user_eq_of_name hmem hu hsame]

/-- The names in the rows are those of the accounts. -/
theorem map_usernames (hwf : WellFormed cfg db) :
    ∀ rows : List PackageComaintainer, (∀ c ∈ rows, c ∈ db.packageComaintainers) →
      (rows.filterMap fun c => (db.user? c.usersID).map (·.username)).map
          (fun name => (userNamed cfg db name).map (·.id)) = (rows.map (·.usersID)).map some
  | [], _ => rfl
  | c :: rows, h => by
      obtain ⟨u, hu, hid⟩ := hwf.comaintainerUsers c (h c (by simp))
      have hfind : db.user? c.usersID = some u := (user?_eq_some hwf.users.nodup).mpr ⟨hu, hid⟩
      have hrest := map_usernames hwf rows fun c' hc' => h c' (by simp [hc'])
      rw [List.filterMap_cons, hfind]
      simp only [Option.map_some, List.map_cons]
      rw [hrest, userNamed_of_mem hwf hu, Option.map_some, hid]

theorem map_getComaintainers (hwf : WellFormed cfg db) {pkgbase : String}
    (hnamed : baseNamed cfg db pkgbase = some b) :
    (getComaintainers cfg db pkgbase).map (fun name => (userNamed cfg db name).map (·.id)) =
      (lineOf db b.id).map some := by
  unfold getComaintainers lineOf
  rw [hnamed]
  refine map_usernames hwf _ fun c hc => ?_
  exact List.mem_of_mem_filter ((List.mem_insertionSort _).mp hc)

theorem idsOf_eq_some {usernames : List String} {ids : List Nat}
    (h : usernames.map (fun name => (userNamed cfg db name).map (·.id)) = ids.map some) :
    idsOf cfg db usernames = some ids := by
  induction usernames generalizing ids with
  | nil =>
      rw [List.map_nil] at h
      rw [List.map_eq_nil_iff.mp h.symm]
      rfl
  | cons name usernames ih =>
      cases ids with
      | nil => simp at h
      | cons id ids =>
          rw [List.map_cons, List.map_cons, List.cons.injEq] at h
          unfold idsOf at ih ⊢
          rw [List.mapM_cons, h.1, ih h.2]
          rfl

/-- Whoever is on the list is found by name. -/
theorem idsOf_getComaintainers (hwf : WellFormed cfg db) (honce : db.comaintainerKeys.Nodup)
    {pkgbase : String} (hnamed : baseNamed cfg db pkgbase = some b) :
    idsOf cfg db (getComaintainers cfg db pkgbase).dedup = some (lineOf db b.id) := by
  have hall := map_getComaintainers hwf hnamed
  have hnodup : (getComaintainers cfg db pkgbase).Nodup := by
    refine List.Nodup.of_map (fun name => (userNamed cfg db name).map (·.id)) ?_
    rw [hall]
    exact (nodup_lineOf (once_of_keys honce b.id)).map (Option.some_injective _)
  rw [List.dedup_eq_self.mpr hnodup]
  exact idsOf_eq_some hall

theorem hasFullAccess_iff (hwf : WellFormed cfg db) {pkgbase : String}
    (hnamed : baseNamed cfg db pkgbase = some b) (huser : user ∈ db.users) :
    hasFullAccess cfg db pkgbase user.username = true ↔ b.maintainerUID = some user.id := by
  obtain ⟨hb, hname⟩ := baseNamed_mem hnamed
  unfold hasFullAccess
  simp only [List.any_eq_true, Bool.and_eq_true, beq_iff_eq]
  constructor
  · rintro ⟨b', hb', hname', u, hu, hu', hm⟩
    have hsame := Config.sameName_trans hname' (Config.sameName_symm hname)
    rw [hwf.base_eq_of_name hb' hb hsame, hwf.user_eq_of_name hu huser hu'] at hm
    exact hm.symm
  · intro hm
    exact ⟨b, hb, hname, user, huser, cfg.sameName_refl _, hm.symm⟩

theorem closeEach_pendingIDs {status : RequestStatus} (hstatus : status ≠ .pending)
    (comments : String) (now : Nat) :
    ∀ (ids : List Nat) (db : Db),
      pendingIDs (ids.foldl (fun db reqid => pkgreqClose db reqid status comments now) db) =
        pendingIDs db \ ids.toFinset
  | [], db => by simp
  | id :: ids, db => by
      rw [List.foldl_cons, closeEach_pendingIDs hstatus comments now ids]
      have hone : pendingIDs (pkgreqClose db id status comments now) = pendingIDs db \ {id} :=
        pendingIDs_update id fun r => ⟨rfl, hstatus⟩
      rw [hone, sdiff_sdiff_left, List.toFinset_cons]
      rfl

/-- The rows of a base on whose list these ids stand, in this order. -/
def numbered (id : Nat) (uids : List Nat) : List PackageComaintainer :=
  uids.map fun uid => { usersID := uid, packageBaseID := id, priority := uids.idxOf uid + 1 }

/-- The rows that stay have the keys they had, and the new ones are nobody's so far. -/
theorem comaintainerKeys_writeComaintainers (db : Db) (honce : db.comaintainerKeys.Nodup)
    (id : Nat) {uidsNew : List Nat} (hnodup : uidsNew.Nodup) :
    (writeComaintainers db id (lineOf db id) uidsNew).comaintainerKeys.Nodup := by
  unfold Db.comaintainerKeys writeComaintainers
  simp only
  rw [List.map_append, Table.map_update (by intro c; rfl), List.map_map]
  refine List.Nodup.append (honce.sublist ((Table.delete_sublist _ _).map _)) ?_ ?_
  · refine (hnodup.filter _).map fun uid uid' hkey => ?_
    exact (Prod.ext_iff.mp hkey).1
  · intro key hold hnew
    obtain ⟨c, hc, rfl⟩ := List.mem_map.mp hold
    obtain ⟨uid, huid, hkey⟩ := List.mem_map.mp hnew
    have hfresh : uid ∉ lineOf db id := by simpa using (List.mem_filter.mp huid).2
    obtain ⟨hid, hbase⟩ : uid = c.usersID ∧ id = c.packageBaseID := Prod.ext_iff.mp hkey
    apply hfresh
    rw [hid]
    refine mem_lineOf.mpr (isComaintainer_iff.mpr ⟨c, (Table.mem_delete.mp hc).1, ?_, rfl⟩)
    exact beq_iff_eq.mpr hbase.symm

theorem mem_comaintainersOf_writeComaintainers {id : Nat} {uidsNew : List Nat}
    {c : PackageComaintainer} :
    c ∈ comaintainersOf (writeComaintainers db id (lineOf db id) uidsNew) id ↔
      c ∈ numbered id uidsNew := by
  have hlisted : ∀ c₀ ∈ db.packageComaintainers, c₀.of id = true → c₀.usersID ∈ lineOf db id :=
    fun c₀ hc₀ hof => mem_lineOf.mpr (isComaintainer_iff.mpr ⟨c₀, hc₀, hof, rfl⟩)
  unfold comaintainersOf numbered
  rw [List.mem_filter, List.mem_map]
  constructor
  · rintro ⟨hc, hof⟩
    rcases List.mem_append.mp hc with hc | hc
    · obtain ⟨c₀, hc₀, rfl⟩ := Table.mem_update.mp hc
      obtain ⟨hrow, hkept⟩ := Table.mem_delete.mp hc₀
      have hof₀ : c₀.of id = true := by
        split at hof
        · exact hof
        · exact hof
      have hold : (lineOf db id).contains c₀.usersID = true :=
        List.contains_iff_mem.mpr (hlisted c₀ hrow hof₀)
      rw [hof₀, hold, Bool.true_and, Bool.true_and, Bool.not_eq_false'] at hkept
      refine ⟨c₀.usersID, List.contains_iff_mem.mp hkept, ?_⟩
      rw [if_pos (by rw [hof₀, hold, hkept]; rfl), ← beq_iff_eq.mp hof₀]
    · obtain ⟨uid, huid, rfl⟩ := List.mem_map.mp hc
      exact ⟨uid, (List.mem_filter.mp huid).1, rfl⟩
  · rintro ⟨uid, huid, rfl⟩
    refine ⟨?_, beq_self_eq_true id⟩
    by_cases hold : uid ∈ lineOf db id
    · obtain ⟨c₀, hc₀, hof₀, rfl⟩ := isComaintainer_iff.mp (mem_lineOf.mp hold)
      have hmem : (lineOf db id).contains c₀.usersID = true := List.contains_iff_mem.mpr hold
      have hnew : uidsNew.contains c₀.usersID = true := List.contains_iff_mem.mpr huid
      refine List.mem_append_left _ (Table.mem_update.mpr ⟨c₀, Table.mem_delete.mpr ⟨hc₀, ?_⟩, ?_⟩)
      · rw [hof₀, hmem, hnew]
        rfl
      · rw [if_pos (by rw [hof₀, hmem, hnew]; rfl), beq_iff_eq.mp hof₀]
    · refine List.mem_append_right _ (List.mem_map.mpr ⟨uid, List.mem_filter.mpr ⟨huid, ?_⟩, rfl⟩)
      simpa using hold

/-- Everybody else goes, and whoever is listed gets the number of their place. -/
theorem byPriority_writeComaintainers (db : Db) (honce : db.comaintainerKeys.Nodup) {id : Nat}
    {uidsNew : List Nat} (hnodup : uidsNew.Nodup) :
    byPriority (writeComaintainers db id (lineOf db id) uidsNew) id = numbered id uidsNew := by
  have hkeys := comaintainerKeys_writeComaintainers db honce id hnodup
  have hrows : (numbered id uidsNew).Nodup := by
    refine hnodup.map fun uid uid' heq => ?_
    exact congrArg PackageComaintainer.usersID heq
  rw [byPriority_eq]
  apply Ranking.ranked_eq
  · refine (List.perm_ext_iff_of_nodup hrows (once_of_keys hkeys id).of_map).mpr fun c => ?_
    exact mem_comaintainersOf_writeComaintainers.symm
  · unfold numbered
    rw [List.pairwise_map, List.pairwise_iff_getElem]
    intro i j hi hj hlt
    rw [hnodup.idxOf_getElem, hnodup.idxOf_getElem]
    show i + 1 < j + 1
    omega

theorem lineOf_writeComaintainers (db : Db) (honce : db.comaintainerKeys.Nodup) {id : Nat}
    {uidsNew : List Nat} (hnodup : uidsNew.Nodup) :
    lineOf (writeComaintainers db id (lineOf db id) uidsNew) id = uidsNew := by
  show (byPriority (writeComaintainers db id (lineOf db id) uidsNew) id).map (·.usersID) = uidsNew
  rw [byPriority_writeComaintainers db honce hnodup]
  unfold numbered
  rw [List.map_map]
  exact List.map_id uidsNew

theorem pkgbaseSetComaintainers_eq (db : Db) {pkgbase : String} (name : String) {privileged : Bool}
    (hnamed : baseNamed cfg db pkgbase = some b)
    (hallowed : ¬(!privileged && !hasFullAccess cfg db pkgbase name) = true)
    {uidsOld uidsNew : List Nat} {userlist : List String}
    (hold : idsOf cfg db (getComaintainers cfg db pkgbase).dedup = some uidsOld)
    (hnew : idsOf cfg db userlist = some uidsNew) :
    pkgbaseSetComaintainers cfg db pkgbase userlist name privileged =
      finished (writeComaintainers db b.id uidsOld (cfg.setOrder.run uidsNew)) := by
  unfold pkgbaseSetComaintainers withPkgbase
  simp only [hnamed]
  rw [if_neg hallowed, hold, hnew]

/-- What the command writes, after the checks: whoever is next takes over, and without an
owner nobody is. -/
theorem pkgbaseDisown_snd (hwf : WellFormed cfg db) (honce : db.comaintainerKeys.Nodup)
    {pkgbase : String} (hnamed : baseNamed cfg db pkgbase = some b) (huser : user ∈ db.users)
    {privileged : Bool} (hallowed : b.maintainerUID = some user.id ∨ privileged = true)
    (now : Nat) :
    let heirs := if b.maintainerUID = some user.id then lineOf db b.id else []
    ∃ rows, pendingIDs { db with packageRequests := rows } = pendingIDs db \ orphanRequests db b ∧
      (pkgbaseDisown cfg db pkgbase user.username privileged now).2 =
        setMaintainer (writeComaintainers { db with packageRequests := rows } b.id
          (lineOf db b.id) (cfg.setOrder.run heirs.tail)) b.id heirs.head? := by
  intro heirs
  have howner := hasFullAccess_iff hwf hnamed huser
  obtain ⟨rows, hrows⟩ := closeEach_frame .accepted
    s!"The user {user.username} disowned the package." now (pkgreqByPkgbase db b .orphan) db
  have hpending := closeEach_pendingIDs (show RequestStatus.accepted ≠ .pending by simp)
    s!"The user {user.username} disowned the package." now (pkgreqByPkgbase db b .orphan) db
  rw [hrows] at hpending
  refine ⟨rows, hpending, ?_⟩
  have hdenied : ¬(!privileged && !hasFullAccess cfg db pkgbase user.username) = true := by
    rcases hallowed with hm | hp
    · simp [howner.mpr hm]
    · simp [hp]
  unfold pkgbaseDisown withPkgbase
  simp only [hnamed]
  rw [if_neg hdenied, hrows]
  generalize hnames : (if hasFullAccess cfg db pkgbase user.username = true then
    getComaintainers cfg { db with packageRequests := rows } pkgbase else []) = names
  have hids : names.map (fun name => (userNamed cfg db name).map (·.id)) = heirs.map some := by
    rw [← hnames]
    by_cases hm : b.maintainerUID = some user.id
    · rw [if_pos (howner.mpr hm)]
      show _ = (if b.maintainerUID = some user.id then lineOf db b.id else []).map some
      rw [if_pos hm]
      exact map_getComaintainers hwf hnamed
    · rw [if_neg fun h => hm (howner.mp h)]
      show _ = (if b.maintainerUID = some user.id then lineOf db b.id else []).map some
      rw [if_neg hm]
      rfl
  have hold := idsOf_getComaintainers hwf honce hnamed
  have hnew : idsOf cfg db names.tail = some heirs.tail := by
    refine idsOf_eq_some ?_
    rw [List.map_tail, hids, List.map_tail]
  have hnext : (names.head?.map fun name => (userNamed cfg db name).map (·.id)) =
      heirs.head?.map some := by
    rw [← List.head?_map, hids, List.head?_map]
  have hset := pkgbaseSetComaintainers_eq { db with packageRequests := rows } user.username hnamed
    hdenied hold hnew
  have hnext' : (names.head?.map fun name =>
      (userNamed cfg { db with packageRequests := rows } name).map (·.id)) =
        heirs.head?.map some := hnext
  have hsome : heirs.head?.map some ≠ some none := by
    cases heirs.head? with
    | none => exact nofun
    | some uid => exact fun h => Option.some_ne_none uid (Option.some.inj h)
  have hjoin : (heirs.head?.map some).join = heirs.head? := by
    cases heirs.head? <;> rfl
  rw [hnext', if_neg hsome, hset, hjoin]
  unfold finished withUser
  simp only
  split
  · rfl
  · rfl

theorem pkgbaseDisown_alike (hwf : WellFormed cfg db) (honce : db.comaintainerKeys.Nodup)
    {pkgbase : String} (hnamed : baseNamed cfg db pkgbase = some b) (huser : user ∈ db.users)
    (privileged : Bool) (hallowed : b.maintainerUID = some user.id ∨ privileged = true)
    (now : Nat) :
    let heirs := if b.maintainerUID = some user.id then lineOf db b.id else []
    Custody.Alike (custody (pkgbaseDisown cfg db pkgbase user.username privileged now).2 b.id)
      { maintainer := heirs.head?, line := heirs.tail
        pending := pendingIDs db \ orphanRequests db b } := by
  intro heirs
  obtain ⟨rows, hpending, heq⟩ := pkgbaseDisown_snd hwf honce hnamed huser hallowed now
  have hrow := packageBase?_of_mem hwf (baseNamed_mem hnamed).1
  have hnodup : heirs.tail.Nodup := by
    refine List.Nodup.sublist (List.tail_sublist _) ?_
    show (if b.maintainerUID = some user.id then lineOf db b.id else []).Nodup
    split
    · exact nodup_lineOf (once_of_keys honce b.id)
    · exact List.nodup_nil
  have hline : lineOf (writeComaintainers { db with packageRequests := rows } b.id (lineOf db b.id)
      (cfg.setOrder.run heirs.tail)) b.id = cfg.setOrder.run heirs.tail :=
    lineOf_writeComaintainers { db with packageRequests := rows } honce (cfg.setOrder.nodup _)
  have hperm : (cfg.setOrder.run heirs.tail).Perm heirs.tail :=
    (List.perm_ext_iff_of_nodup (cfg.setOrder.nodup _) hnodup).mpr fun uid => cfg.setOrder.mem
  have hrow' : (writeComaintainers { db with packageRequests := rows } b.id (lineOf db b.id)
      (cfg.setOrder.run heirs.tail)).packageBase? b.id = some b := hrow
  rw [heq, custody_setMaintainer hrow']
  refine ⟨rfl, ?_, hpending⟩
  show (lineOf (writeComaintainers _ _ _ _) b.id).Perm heirs.tail
  rw [hline]
  exact hperm

/-- The command. -/
theorem pkgbaseDisown_custody (hwf : WellFormed cfg db) (honce : db.comaintainerKeys.Nodup)
    {pkgbase : String} (hnamed : baseNamed cfg db pkgbase = some b) (huser : user ∈ db.users)
    (privileged : Bool) (now : Nat) :
    let after := custody (pkgbaseDisown cfg db pkgbase user.username privileged now).2 b.id
    if b.maintainerUID = some user.id then
      after.Alike ((custody db b.id).stepDown.settle (orphanRequests db b))
    else if privileged = true then
      after = (custody db b.id).abandon.settle (orphanRequests db b)
    else after = custody db b.id := by
  intro after
  by_cases hm : b.maintainerUID = some user.id
  · have halike := pkgbaseDisown_alike hwf honce hnamed huser privileged (Or.inl hm) now
    rw [if_pos hm] at halike ⊢
    exact halike
  rw [if_neg hm]
  by_cases hp : privileged = true
  · have halike := pkgbaseDisown_alike hwf honce hnamed huser privileged (Or.inr hp) now
    rw [if_neg hm] at halike
    rw [if_pos hp]
    exact Custody.ext halike.maintainer (List.perm_nil.mp halike.line) halike.pending
  · rw [if_neg hp]
    have hnot : ¬hasFullAccess cfg db pkgbase user.username = true := fun h =>
      hm ((hasFullAccess_iff hwf hnamed huser).mp h)
    have hsame : (pkgbaseDisown cfg db pkgbase user.username privileged now).2 = db := by
      unfold pkgbaseDisown withPkgbase
      simp only [hnamed]
      rw [if_pos (by simp [hp, hnot])]
      rfl
    show custody (pkgbaseDisown cfg db pkgbase user.username privileged now).2 b.id = _
    rw [hsame]

end GitServe

/-! ### The two compared -/

/-- The SSH session of an elevated account is privileged. -/
theorem privileged_eq (user : User) :
    decide (1 < user.accountType.id) = user.isElevated := by
  unfold User.isElevated
  cases user.accountType <;> rfl

end

/-- `alice` works on `foo` with `carol`, and has asked for it to be orphaned. -/
def sharedSite : Db := Run.exec (step siteConfig) smallSite [takeOnAlice, orphanRequest 100]

end Aurweb
