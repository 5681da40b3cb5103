/-
What a merge leaves of two package bases.

Votes and notifications are one to a user and base, so those of users whom the target has
already stay behind and go with the source: both tables are transfers.  Comments are not one
to a user and move all.  What else belongs to the source goes, and nothing else of any other
base is written.
-/
import Aurweb.Proofs.RequestWrites

namespace Aurweb

/-! ### What belongs to a base -/

/-- Who votes for a base. -/
def voters (db : Db) (id : Nat) : Finset Nat :=
  Transfer.members PackageVote.usersID PackageVote.packageBaseID db.packageVotes id

/-- Who follows it. -/
def followers (db : Db) (id : Nat) : Finset Nat :=
  Transfer.members PackageNotification.userID PackageNotification.packageBaseID
    db.packageNotifications id

/-- A package of the base. -/
def inBase (db : Db) (id packageID : Nat) : Bool :=
  db.packages.any fun pkg => pkg.id == packageID && pkg.packageBaseID == id

/-- The packages of a base, with what hangs off them, and what its maintainers have set. -/
structure Contents where
  packages : List Package
  packageLicenses : List PackageLicense
  packageGroups : List PackageGroup
  packageDepends : List PackageDependency
  packageRelations : List PackageRelation
  packageSources : List PackageSource
  packageKeywords : List PackageKeyword
  packageComaintainers : List PackageComaintainer
  packageRequests : List PackageRequest
  deriving DecidableEq

def contents (db : Db) (id : Nat) : Contents where
  packages := db.packages.filter (·.packageBaseID == id)
  packageLicenses := db.packageLicenses.filter fun r => inBase db id r.packageID
  packageGroups := db.packageGroups.filter fun r => inBase db id r.packageID
  packageDepends := db.packageDepends.filter fun r => inBase db id r.packageID
  packageRelations := db.packageRelations.filter fun r => inBase db id r.packageID
  packageSources := db.packageSources.filter fun r => inBase db id r.packageID
  packageKeywords := db.packageKeywords.filter (·.packageBaseID == id)
  packageComaintainers := db.packageComaintainers.filter (·.packageBaseID == id)
  packageRequests := db.packageRequests.filter (·.packageBaseID == some id)

/-- A base, and what users have left there. -/
structure Standing where
  base : List PackageBase
  votes : List PackageVote
  comments : List PackageComment
  notifications : List PackageNotification
  deriving DecidableEq

def standing (db : Db) (id : Nat) : Standing where
  base := db.packageBases.filter (·.id == id)
  votes := db.packageVotes.filter (·.packageBaseID == id)
  comments := db.packageComments.filter (·.packageBaseID == id)
  notifications := db.packageNotifications.filter (·.packageBaseID == id)

/-- The base has been merged into the target. -/
structure Merged (db : Db) (pkgbase target : PackageBase) (db' : Db) : Prop where
  /-- Each voter of either base has one vote. -/
  votes : ∀ uid, db'.packageVotes.countP
    (fun v => v.packageBaseID == target.id && v.usersID == uid) =
      if uid ∈ voters db pkgbase.id ∪ voters db target.id then 1 else 0
  /-- It is the vote for the target, or else the one for the base with its time. -/
  voteTimes : ∀ v, v ∈ db'.packageVotes ∧ v.packageBaseID = target.id ↔
    (v ∈ db.packageVotes ∧ v.packageBaseID = target.id) ∨
      ∃ v₀ ∈ db.packageVotes, v₀.packageBaseID = pkgbase.id ∧
        v₀.usersID ∉ voters db target.id ∧ v = { v₀ with packageBaseID := target.id }
  /-- Each follower of either base is notified once. -/
  notifications : ∀ uid, db'.packageNotifications.countP
    (fun n => n.packageBaseID == target.id && n.userID == uid) =
      if uid ∈ followers db pkgbase.id ∪ followers db target.id then 1 else 0
  comments : db'.packageComments = db.packageComments.map fun c =>
    if c.packageBaseID = pkgbase.id then { c with packageBaseID := target.id } else c
  /-- Nothing else of the target has changed than the number of votes. -/
  base : (standing db' target.id).base = (standing db target.id).base.map fun b =>
    { b with numVotes := (voters db pkgbase.id ∪ voters db target.id).card }
  gone : standing db' pkgbase.id = ⟨[], [], [], []⟩ ∧
    contents db' pkgbase.id = ⟨[], [], [], [], [], [], [], [], []⟩
  contents : ∀ id, id ≠ pkgbase.id → contents db' id = contents db id
  others : ∀ id, id ≠ pkgbase.id → id ≠ target.id → standing db' id = standing db id

variable {cfg : Config} {db : Db} {user : User} {pkgbase target : PackageBase}

/-! ### Closing the merge requests -/

/-- Merge requests on the base are closed, and no request on another base is touched. -/
theorem retryClosures_merge {toAccept toReject : List Nat} {now : Nat}
    (h : ∀ r ∈ db.packageRequests, r.id ∈ toAccept ∨ r.id ∈ toReject →
      r.reqType = .merge ∧ r.packageBaseID = some pkgbase.id) :
    ∃ rows, retryClosures db user pkgbase (some target) toAccept toReject now =
        (.ok (), { db with packageRequests := rows }) ∧
      ∀ id, id ≠ pkgbase.id → rows.filter (·.packageBaseID == some id) =
        db.packageRequests.filter (·.packageBaseID == some id) := by
  have hok : (retryClosures db user pkgbase (some target) toAccept toReject now).1 = .ok () :=
    retryClosures_ok (fun r hr hid => (h r hr (Or.inl hid)).1 ▸ hasText_merge ..)
      fun r hr hid => (h r hr (Or.inr hid)).1 ▸ hasText_merge ..
  rcases retryClosures_cases db user pkgbase (some target) toAccept toReject now with
    ⟨e, he⟩ | ⟨rows, hrows, heq⟩
  · rw [he] at hok
    exact absurd hok (by simp)
  refine ⟨rows, heq, fun id hne => Table.filter_of_forall₂ (hrows.imp ?_)⟩
  rintro r r' ⟨hr, hcloses, hsame⟩
  by_cases hid : r.id ∈ toAccept ∨ r.id ∈ toReject
  · have hbase := (h r hr hid).2
    rw [(hcloses hid).base, hbase]
    exact ⟨rfl, fun heq => absurd (Option.some.inj (beq_iff_eq.mp heq)).symm hne⟩
  · rw [not_or] at hid
    obtain rfl := hsame hid.1 hid.2
    exact ⟨rfl, fun _ => rfl⟩

theorem handleRequest_merge (hwf : WellFormed cfg db) (user : User) (pkgbase target : PackageBase)
    (comments : String) (now : Nat) :
    ∃ rows n, handleRequest cfg db user .merge pkgbase (some target) comments none now =
        (.ok (), { db with packageRequests := rows, nextID := n }) ∧
      ∀ id, id ≠ pkgbase.id → rows.filter (·.packageBaseID == some id) =
        db.packageRequests.filter (·.packageBaseID == some id) := by
  rcases handleRequest_cases cfg db user .merge pkgbase (some target) comments none now with
    ⟨e, horphan, -⟩ | ⟨mergeInto, -, heq⟩ | heq
  · exact absurd horphan (by simp)
  · rw [heq]
    have hclosed : ∀ r ∈ (insertRequest db (newRequest .merge user pkgbase mergeInto
        "Autogenerated by aurweb." comments now)).packageRequests, r.id ∈ [db.nextID] ∨
          r.id ∈ rejectIDsOf cfg db .merge pkgbase (some target) none →
        r.reqType = .merge ∧ r.packageBaseID = some pkgbase.id := by
      intro r hr hid
      rcases mem_insertRequest hr with hr | rfl
      · have hreject := hid.resolve_left fun hnew => by
          have hlt := hwf.requests.lt r hr
          have hid := List.mem_singleton.mp hnew
          omega
        exact (queried_pending (queried_of_mem hwf.requests hr (Or.inr hreject))).2
      · exact ⟨rfl, rfl⟩
    obtain ⟨rows, hrows, hother⟩ := retryClosures_merge hclosed
    refine ⟨rows, db.nextID + 1, hrows, fun id hne => (hother id hne).trans ?_⟩
    have hnew : (some pkgbase.id == some id) = false := by simpa using hne.symm
    simp [insertRequest, newRequest, List.filter_append, hnew]
  · rw [heq]
    obtain ⟨rows, hrows, hother⟩ := retryClosures_merge fun r hr hid =>
      (queried_pending (queried_of_mem hwf.requests hr hid)).2
    exact ⟨rows, db.nextID, hrows, hother⟩

/-! ### Moving rows -/

def moveVote (id : Nat) (v : PackageVote) : PackageVote := { v with packageBaseID := id }

@[simp] theorem moveVote_base (id : Nat) (v : PackageVote) : (moveVote id v).packageBaseID = id :=
  rfl

def moveNotification (id : Nat) (n : PackageNotification) : PackageNotification :=
  { n with packageBaseID := id }

theorem retryMerge_votes (db : Db) (pkgbase target : PackageBase) :
    (retryMerge db pkgbase target).packageVotes =
      Transfer.transfer PackageVote.usersID PackageVote.packageBaseID (moveVote target.id)
        pkgbase.id target.id db.packageVotes :=
  rfl

theorem retryMerge_notifications (db : Db) (pkgbase target : PackageBase) :
    (retryMerge db pkgbase target).packageNotifications =
      Transfer.transfer PackageNotification.userID PackageNotification.packageBaseID
        (moveNotification target.id) pkgbase.id target.id db.packageNotifications :=
  rfl

/-- The comments of the source are all moved, so none goes with it. -/
theorem retryMerge_comments (db : Db) (hne : pkgbase.id ≠ target.id) :
    (retryMerge db pkgbase target).packageComments = db.packageComments.map fun c =>
      if c.packageBaseID = pkgbase.id then { c with packageBaseID := target.id } else c := by
  have hmoved : (moveRows db pkgbase target).packageComments = db.packageComments.map fun c =>
      if c.packageBaseID = pkgbase.id then { c with packageBaseID := target.id } else c := by
    unfold moveRows Table.update
    simp only [beq_iff_eq]
  show Table.delete _ (moveRows db pkgbase target).packageComments = _
  rw [hmoved]
  refine Table.delete_eq_self fun c hc => ?_
  obtain ⟨c₀, -, rfl⟩ := List.mem_map.mp hc
  split
  · simpa using hne.symm
  · rename_i hother
    simpa using hother

theorem voters_retryMerge (db : Db) (hne : pkgbase.id ≠ target.id) :
    voters (retryMerge db pkgbase target) target.id =
      voters db pkgbase.id ∪ voters db target.id := by
  unfold voters
  rw [retryMerge_votes]
  exact Transfer.members_transfer (fun _ => rfl) hne fun _ => rfl

theorem followers_retryMerge (db : Db) (hne : pkgbase.id ≠ target.id) :
    followers (retryMerge db pkgbase target) target.id =
      followers db pkgbase.id ∪ followers db target.id := by
  unfold followers
  rw [retryMerge_notifications]
  exact Transfer.members_transfer (fun _ => rfl) hne fun _ => rfl

/-- A user votes once for a base. -/
def VotesOnce (db : Db) : Prop :=
  Transfer.Unique PackageVote.usersID PackageVote.packageBaseID db.packageVotes

/-- And is notified once of it. -/
def NotifiedOnce (db : Db) : Prop :=
  Transfer.Unique PackageNotification.userID PackageNotification.packageBaseID
    db.packageNotifications

theorem VotesOnce.retryMerge (h : VotesOnce db) (pkgbase target : PackageBase) :
    VotesOnce (retryMerge db pkgbase target) := by
  unfold VotesOnce
  rw [retryMerge_votes]
  exact h.transfer (fun _ => rfl) fun _ => rfl

theorem NotifiedOnce.retryMerge (h : NotifiedOnce db) (pkgbase target : PackageBase) :
    NotifiedOnce (retryMerge db pkgbase target) := by
  unfold NotifiedOnce
  rw [retryMerge_notifications]
  exact h.transfer (fun _ => rfl) fun _ => rfl

/-- The recount finds the voters of both. -/
theorem popupdate_merge (h : VotesOnce db) (hne : pkgbase.id ≠ target.id) :
    (moveRows db pkgbase target).packageVotes.countP (·.packageBaseID == target.id) =
      (voters db pkgbase.id ∪ voters db target.id).card := by
  have hcount : (moveRows db pkgbase target).packageVotes.countP
      (·.packageBaseID == target.id) =
        (retryMerge db pkgbase target).packageVotes.countP (·.packageBaseID == target.id) := by
    rw [List.countP_eq_length_filter, List.countP_eq_length_filter]
    show _ = ((Table.delete _ (moveRows db pkgbase target).packageVotes).filter _).length
    rw [Table.filter_delete_of_disjoint fun v hp ht => ?_]
    exact hne ((beq_iff_eq.mp hp).symm.trans (beq_iff_eq.mp ht))
  rw [hcount, (h.retryMerge pkgbase target).countP_base, ← voters_retryMerge db hne]
  rfl

/-! ### Other bases -/

/-- A package is in one base, so what hangs off the packages of another stays. -/
theorem filter_inBase {ρ : Type} {key : ρ → Nat} (hpackages : (db.packages.map (·.id)).Nodup)
    {db' : Db} {id p : Nat} (hdb' : db'.packages = Table.delete (·.packageBaseID == p) db.packages)
    (hne : id ≠ p) (rows : List ρ) :
    (Table.delete (fun r => inBase db p (key r)) rows).filter (fun r => inBase db' id (key r)) =
      rows.filter fun r => inBase db id (key r) := by
  have hbase : ∀ packageID, inBase db' id packageID = inBase db id packageID := by
    intro packageID
    unfold inBase
    rw [hdb', Bool.eq_iff_iff, List.any_eq_true, List.any_eq_true]
    constructor
    · rintro ⟨pkg, hpkg, hid⟩
      exact ⟨pkg, (Table.mem_delete.mp hpkg).1, hid⟩
    · rintro ⟨pkg, hpkg, hid⟩
      refine ⟨pkg, Table.mem_delete.mpr ⟨hpkg, ?_⟩, hid⟩
      rw [Bool.and_eq_true, beq_iff_eq, beq_iff_eq] at hid
      simpa [hid.2] using hne
  rw [List.filter_congr fun r _ => hbase (key r)]
  refine Table.filter_delete_of_disjoint (fun r hgone hstays => ?_) rows
  obtain ⟨pkg, hpkg, hid⟩ := List.any_eq_true.mp hgone
  obtain ⟨pkg', hpkg', hid'⟩ := List.any_eq_true.mp hstays
  rw [Bool.and_eq_true, beq_iff_eq, beq_iff_eq] at hid hid'
  have hsame := List.inj_on_of_nodup_map hpackages hpkg hpkg' (hid.1.trans hid'.1.symm)
  rw [hsame] at hid
  exact hne (hid'.2.symm.trans hid.2)

/-- Rows of one base go, and those of another stay. -/
theorem filter_dropped {ρ : Type} {base : ρ → Nat} {p id : Nat} (hne : id ≠ p) (rows : List ρ) :
    (Table.delete (base · == p) rows).filter (base · == id) = rows.filter (base · == id) := by
  refine Table.filter_delete_of_disjoint (fun r hp hid => ?_) rows
  exact hne ((beq_iff_eq.mp hid).symm.trans (beq_iff_eq.mp hp))

/-- Rows of one base move to another, and those of a third stay. -/
theorem filter_moved {ρ : Type} {base : ρ → Nat} {p t id : Nat} {moves : ρ → Bool} {move : ρ → ρ}
    (hfrom : ∀ r, moves r = true → base r = p) (hto : ∀ r, base (move r) = t) (hne : id ≠ p)
    (hne' : id ≠ t) (rows : List ρ) :
    (Table.delete (base · == p) (Table.update moves move rows)).filter (base · == id) =
      rows.filter (base · == id) := by
  rw [filter_dropped hne]
  refine Table.filter_update_of_outside (fun r hr => ?_) rows
  rw [hfrom r hr, hto]
  exact ⟨by simpa using hne.symm, by simpa using hne'.symm⟩

theorem contents_deletePackageBase (hpackages : (db.packages.map (·.id)).Nodup) {p id : Nat}
    (hne : id ≠ p) : contents (db.deletePackageBase p) id = contents db id := by
  unfold contents
  rw [Contents.mk.injEq]
  refine ⟨filter_dropped hne _, filter_inBase hpackages rfl hne _,
    filter_inBase hpackages rfl hne _, filter_inBase hpackages rfl hne _,
    filter_inBase hpackages rfl hne _, filter_inBase hpackages rfl hne _, filter_dropped hne _,
    filter_dropped hne _, ?_⟩
  refine Table.filter_update_of_outside (fun r hr => ?_) _
  rw [beq_iff_eq.mp hr]
  exact ⟨by simpa using hne.symm, rfl⟩

theorem standing_deletePackageBase (db : Db) {p id : Nat} (hne : id ≠ p) :
    standing (db.deletePackageBase p) id = standing db id := by
  unfold standing
  rw [Standing.mk.injEq]
  exact ⟨filter_dropped hne _, filter_dropped hne _, filter_dropped hne _, filter_dropped hne _⟩

theorem contents_retryMerge (hpackages : (db.packages.map (·.id)).Nodup) {id : Nat}
    (hne : id ≠ pkgbase.id) :
    contents (retryMerge db pkgbase target) id = contents db id := by
  have hmoved : contents (popupdate (moveRows db pkgbase target) target.id) id = contents db id :=
    rfl
  rw [← hmoved]
  exact contents_deletePackageBase hpackages hne

theorem standing_retryMerge (db : Db) {id : Nat} (hne : id ≠ pkgbase.id) (hne' : id ≠ target.id) :
    standing (retryMerge db pkgbase target) id = standing db id := by
  unfold standing
  rw [Standing.mk.injEq]
  refine ⟨(filter_dropped hne _).trans ?_, filter_moved ?_ ?_ hne hne' _,
    filter_moved ?_ ?_ hne hne' _, filter_moved ?_ ?_ hne hne' _⟩
  · refine Table.filter_update_of_outside (fun b ht => ?_) db.packageBases
    rw [beq_iff_eq.mp ht]
    exact ⟨by simpa using hne'.symm, by simpa using hne'.symm⟩
  · intro v hv
    exact beq_iff_eq.mp (Bool.and_eq_true_iff.mp hv).1
  · intro v
    rfl
  · intro c hc
    exact beq_iff_eq.mp hc
  · intro c
    rfl
  · intro n hn
    exact beq_iff_eq.mp (Bool.and_eq_true_iff.mp hn).1
  · intro n
    rfl

/-! ### The base that goes -/

theorem filter_gone {ρ : Type} (p : ρ → Bool) (rows : List ρ) :
    (Table.delete p rows).filter p = [] := by
  unfold Table.delete
  rw [List.filter_filter]
  simp

theorem gone_deletePackageBase (db : Db) (id : Nat) :
    standing (db.deletePackageBase id) id = ⟨[], [], [], []⟩ ∧
      contents (db.deletePackageBase id) id = ⟨[], [], [], [], [], [], [], [], []⟩ := by
  have hempty : ∀ packageID, inBase (db.deletePackageBase id) id packageID = false := by
    intro packageID
    unfold inBase
    rw [List.any_eq_false]
    intro pkg hpkg
    have hbase := (Table.mem_delete.mp hpkg).2
    simp [hbase]
  constructor
  · unfold standing
    rw [Standing.mk.injEq]
    exact ⟨filter_gone _ _, filter_gone _ _, filter_gone _ _, filter_gone _ _⟩
  · unfold contents
    rw [Contents.mk.injEq]
    simp only [hempty, List.filter_false, true_and]
    refine ⟨filter_gone _ _, filter_gone _ _, filter_gone _ _, ?_⟩
    refine List.filter_eq_nil_iff.mpr fun r hr => ?_
    obtain ⟨r₀, -, rfl⟩ := Table.mem_update.mp hr
    split
    · simp
    · rename_i hother
      exact hother

theorem gone_retryMerge (db : Db) (pkgbase target : PackageBase) :
    standing (retryMerge db pkgbase target) pkgbase.id = ⟨[], [], [], []⟩ ∧
      contents (retryMerge db pkgbase target) pkgbase.id =
        ⟨[], [], [], [], [], [], [], [], []⟩ :=
  gone_deletePackageBase _ pkgbase.id

/-! ### The merge -/

theorem base_retryMerge (h : VotesOnce db) (hne : pkgbase.id ≠ target.id) :
    (standing (retryMerge db pkgbase target) target.id).base =
      (standing db target.id).base.map fun b =>
        { b with numVotes := (voters db pkgbase.id ∪ voters db target.id).card } := by
  rw [← popupdate_merge h hne]
  refine (filter_dropped hne.symm _).trans ?_
  refine Table.filter_update_self ?_ db.packageBases
  intro b
  rfl

theorem merged_retryMerge (hvotes : VotesOnce db) (hnotified : NotifiedOnce db)
    (hpackages : (db.packages.map (·.id)).Nodup) (hne : pkgbase.id ≠ target.id) :
    Merged db pkgbase target (retryMerge db pkgbase target) where
  votes uid := by
    rw [← voters_retryMerge db hne]
    exact (hvotes.retryMerge pkgbase target).countP_row target.id uid
  voteTimes v := by
    rw [retryMerge_votes, Transfer.mem_transfer (moveVote_base target.id) hne]
    constructor
    · rintro ⟨⟨hv, -⟩ | ⟨v₀, hv₀, hbase, hnew, rfl⟩, htarget⟩
      · exact Or.inl ⟨hv, htarget⟩
      · exact Or.inr ⟨v₀, hv₀, hbase, hnew, rfl⟩
    · rintro (⟨hv, htarget⟩ | ⟨v₀, hv₀, hbase, hnew, rfl⟩)
      · exact ⟨Or.inl ⟨hv, htarget ▸ hne.symm⟩, htarget⟩
      · exact ⟨Or.inr ⟨v₀, hv₀, hbase, hnew, rfl⟩, rfl⟩
  notifications uid := by
    rw [← followers_retryMerge db hne]
    exact (hnotified.retryMerge pkgbase target).countP_row target.id uid
  comments := retryMerge_comments db hne
  base := base_retryMerge hvotes hne
  gone := gone_retryMerge db pkgbase target
  contents _ hother := contents_retryMerge hpackages hother
  others _ hother hother' := standing_retryMerge db hother hother'

/--
**A merge loses and doubles nothing.**  For every two package bases and whatever votes,
notifications and comments are on them, the merge goes through; the target then has one vote
for each voter of either, its own if there is one and else the source's with its time, one
notification for each follower of either, the comments of both, and `NumVotes` is the number
of voters of either; the source is gone with its packages, and the rows of every other base
are as they were.
-/
theorem merged_of_merge (cfg : Config) (db : Db) (user : User) (pkgbase target : PackageBase)
    (comments : String) (now : Nat) (hwf : WellFormed cfg db)
    (hpackages : (db.packages.map (·.id)).Nodup) (hnotified : NotifiedOnce db)
    (hne : pkgbase.id ≠ target.id) :
    (pkgbaseMergeInstance cfg db user pkgbase target comments now).1 = .ok () ∧
      Merged db pkgbase target
        (pkgbaseMergeInstance cfg db user pkgbase target comments now).2 := by
  obtain ⟨rows, n, heq, hrequests⟩ :=
    handleRequest_merge hwf user pkgbase target comments now
  unfold pkgbaseMergeInstance Outcome.andThen
  rw [heq]
  refine ⟨rfl, ?_⟩
  have hmerged : Merged { db with packageRequests := rows, nextID := n } pkgbase target
      (retryMerge { db with packageRequests := rows, nextID := n } pkgbase target) :=
    merged_retryMerge hwf.votes hnotified hpackages hne
  refine { hmerged with contents := fun id hother => (hmerged.contents id hother).trans ?_ }
  unfold contents
  rw [Contents.mk.injEq]
  exact ⟨rfl, rfl, rfl, rfl, rfl, rfl, rfl, rfl, hrequests id hother⟩

/-- A package base of `carol`'s, never flagged. -/
def carols (id : Nat) (name : String) : PackageBase where
  id := id
  name := name
  numVotes := 0
  outOfDateTS := none
  flaggerComment := ""
  submittedTS := 1
  modifiedTS := 1
  flaggerUID := none
  submitterUID := some 3
  maintainerUID := some 3
  packagerUID := some 3

/-- `bob` votes for both of `carol`'s bases, `alice` for the one that is to go. -/
def twinSite : Db where
  users := smallSite.users
  packageBases := [carols 4 "foo", carols 5 "foo-git"]
  packages := [⟨6, 5, "foo-git", "1-1", none, none⟩]
  packageVotes := [⟨2, 4, 10⟩, ⟨1, 5, 20⟩, ⟨2, 5, 30⟩]
  packageNotifications := [⟨5, 1⟩, ⟨4, 3⟩, ⟨5, 3⟩]
  packageComments := [⟨7, 5, some 1, "nice", none, none⟩]
  nextID := 8

theorem twinSite_wellFormed : WellFormed siteConfig twinSite where
  bases := ⟨by decide, by decide⟩
  baseNames := by decide
  users := ⟨by decide, by decide⟩
  userNames := by decide
  requests := Table.Numbered.nil
  requestBases := by simp [twinSite]
  comaintainerBases := by simp [twinSite]
  comaintainerUsers := by simp [twinSite]
  voteBases := by decide
  votes := by decide

theorem merged_of_merge_twins :
    (pkgbaseMergeInstance siteConfig twinSite (account 2 .packageMaintainer "bob")
        (carols 5 "foo-git") (carols 4 "foo") "one is enough" 300).1 = .ok () ∧
      Merged twinSite (carols 5 "foo-git") (carols 4 "foo")
        (pkgbaseMergeInstance siteConfig twinSite (account 2 .packageMaintainer "bob")
          (carols 5 "foo-git") (carols 4 "foo") "one is enough" 300).2 :=
  merged_of_merge siteConfig twinSite _ _ _ _ 300 twinSite_wellFormed (by decide)
    (show (twinSite.packageNotifications.map fun n => (n.userID, n.packageBaseID)).Nodup by decide)
    (by decide)

end Aurweb
