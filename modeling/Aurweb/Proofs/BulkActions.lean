/-
What a bulk action leaves of each package base.

`holding` is what the database holds for a base.  Each of the six single actions is confined
to the base it is called for: it reads and writes what that base holds and nothing of any
other, so the bases of a selection do not see each other's actions.  The rest is which of the
checks come before the first action, and that `disown_all` goes on after an error.
-/
import Aurweb.Lib.Independent
import Aurweb.Proofs.FormWrites
import Aurweb.Proofs.Merging
import Aurweb.Proofs.RefusedDisown

namespace Aurweb

open Independent

/-! ### What a base holds -/

/-- A request but for its id, which says how many there were before it. -/
def PackageRequest.withoutID (r : PackageRequest) : PackageRequest := { r with id := 0 }

/-- What is stored for a base. -/
structure Holding where
  standing : Standing
  contents : Contents
  deriving DecidableEq

def holding (db : Db) (id : Nat) : Holding where
  standing := standing db id
  contents :=
    { contents db id with
      packageRequests := (contents db id).packageRequests.map PackageRequest.withoutID }

/-- What the actions rely on: ids are not given twice. -/
structure Keyed (db : Db) : Prop where
  requests : Table.Numbered PackageRequest.id db.nextID db.packageRequests
  packages : (db.packages.map (·.id)).Nodup

/-- The action has to do with one base. -/
abbrev OnBase (id : Nat) (act : Db → Outcome) : Prop := Confined Keyed holding id act

variable {cfg : Config} {db : Db} {user : User} {b : PackageBase} {now : Nat}

/-! ### The requests on a base -/

/-- A request as `close_pkgreq` leaves it, if there is a text for it. -/
def closed (user : User) (b : PackageBase) (status : RequestStatus) (now : Nat)
    (r : PackageRequest) : PackageRequest :=
  match closePkgreq user b none status now r with
  | .ok r' => r'
  | .error _ => r

theorem closePkgreq_eq_closed {status : RequestStatus} {r : PackageRequest}
    (h : HasText b none status r.reqType) :
    closePkgreq user b none status now r = .ok (closed user b status now r) := by
  obtain ⟨r', hr'⟩ : ∃ r', closePkgreq user b none status now r = .ok r' := closePkgreq_of_text h
  unfold closed
  rw [hr']

theorem closed_id (user : User) (b : PackageBase) {status : RequestStatus}
    (hstatus : status ≠ .pending) (now : Nat) (r : PackageRequest) :
    (closed user b status now r).id = r.id ∧
      (closed user b status now r).packageBaseID = r.packageBaseID := by
  unfold closed
  cases h : closePkgreq user b none status now r with
  | error e => exact ⟨rfl, rfl⟩
  | ok r' => exact ⟨(closePkgreq_ok hstatus h).id, (closePkgreq_ok hstatus h).base⟩

/-- The text does not depend on the id. -/
theorem closed_withoutID (user : User) (b : PackageBase) (status : RequestStatus) (now : Nat)
    (r : PackageRequest) :
    closed user b status now r.withoutID = (closed user b status now r).withoutID := by
  unfold closed closePkgreq PackageRequest.withoutID
  simp only
  by_cases hcomment : r.closureComment = ""
  · rw [if_pos hcomment]
    cases getClosure r.reqType b none status with
    | error e => rfl
    | ok text => rfl
  · rw [if_neg hcomment]
    rfl

/-- What becomes of a request when its base is acted on: `all` of the query are accepted, or
none. -/
def answered (cfg : Config) (reqType : RequestType) (user : User) (b : PackageBase) (all : Bool)
    (now : Nat) (r : PackageRequest) : PackageRequest :=
  if queried cfg reqType b r then closed user b (if all then .accepted else .rejected) now r
  else r

/-- The request that puts the action on record, where it answers none. -/
def recorded (reqType : RequestType) (user : User) (b : PackageBase) (now id : Nat) :
    PackageRequest :=
  closed user b .accepted now
    { newRequest reqType user b none "Autogenerated by aurweb." "" now with id := id }

variable {reqType : RequestType} {acceptIDs : Option (List Nat)} {all : Bool}

theorem answered_id (cfg : Config) (reqType : RequestType) (user : User) (b : PackageBase)
    (all : Bool) (now : Nat) (r : PackageRequest) :
    (answered cfg reqType user b all now r).id = r.id ∧
      (answered cfg reqType user b all now r).packageBaseID = r.packageBaseID := by
  unfold answered
  by_cases hq : queried cfg reqType b r = true
  · rw [if_pos hq]
    exact closed_id user b (by cases all <;> decide) now r
  · rw [if_neg hq]
    exact ⟨rfl, rfl⟩

theorem answered_withoutID (cfg : Config) (reqType : RequestType) (user : User)
    (b : PackageBase) (all : Bool) (now : Nat) (r : PackageRequest) :
    answered cfg reqType user b all now r.withoutID =
      (answered cfg reqType user b all now r).withoutID := by
  unfold answered
  have hq : queried cfg reqType b r.withoutID = queried cfg reqType b r := rfl
  rw [hq]
  by_cases hq : queried cfg reqType b r = true
  · rw [if_pos hq, if_pos hq, closed_withoutID]
  · rw [if_neg hq, if_neg hq]

/-- `retry_closures`, where there is a text for everything it is given. -/
theorem retryClosures_eq {toAccept toReject : List Nat}
    (haccept : ∀ r ∈ db.packageRequests, r.id ∈ toAccept → HasText b none .accepted r.reqType)
    (hreject : ∀ r ∈ db.packageRequests, r.id ∈ toReject → HasText b none .rejected r.reqType) :
    retryClosures db user b none toAccept toReject now =
      done { db with
        packageRequests := db.packageRequests.map fun r =>
          if r.id ∈ toAccept then closed user b .accepted now r
          else if r.id ∈ toReject then closed user b .rejected now r
          else r } := by
  unfold retryClosures
  simp only
  rw [Table.mapM_eq_ok_map (g := fun r =>
    if r.id ∈ toAccept then closed user b .accepted now r
    else if r.id ∈ toReject then closed user b .rejected now r
    else r)]
  intro r hr
  by_cases ha : r.id ∈ toAccept
  · rw [if_pos (by simpa using ha), if_pos ha]
    exact closePkgreq_eq_closed (haccept r hr ha)
  rw [if_neg (by simpa using ha), if_neg ha]
  by_cases hj : r.id ∈ toReject
  · rw [if_pos (by simpa using hj), if_pos hj]
    exact closePkgreq_eq_closed (hreject r hr hj)
  · rw [if_neg (by simpa using hj), if_neg hj]

theorem mem_acceptIDsOf_iff (hkeyed : Keyed db)
    (hall : ∀ r, accepts cfg none acceptIDs r = all) {r : PackageRequest}
    (hr : r ∈ db.packageRequests) :
    r.id ∈ acceptIDsOf cfg db reqType b none acceptIDs ↔
      all = true ∧ queried cfg reqType b r = true := by
  constructor
  · intro hid
    obtain ⟨r₀, hr₀, -⟩ := List.mem_map.mp hid
    refine ⟨(hall r₀).symm.trans (List.mem_filter.mp hr₀).2, ?_⟩
    exact queried_of_mem hkeyed.requests hr (Or.inl hid)
  · rintro ⟨htrue, hq⟩
    have hquery := List.mem_filter.mpr ⟨hr, hq⟩
    exact List.mem_map_of_mem (List.mem_filter.mpr ⟨hquery, (hall r).trans htrue⟩)

theorem mem_rejectIDsOf_iff (hkeyed : Keyed db)
    (hall : ∀ r, accepts cfg none acceptIDs r = all) {r : PackageRequest}
    (hr : r ∈ db.packageRequests) :
    r.id ∈ rejectIDsOf cfg db reqType b none acceptIDs ↔
      all = false ∧ queried cfg reqType b r = true := by
  constructor
  · intro hid
    have hq : queried cfg reqType b r = true := queried_of_mem hkeyed.requests hr (Or.inr hid)
    refine ⟨Bool.eq_false_iff.mpr fun htrue => ?_, hq⟩
    have haccepted := (mem_acceptIDsOf_iff hkeyed hall hr).mpr ⟨htrue, hq⟩
    have hnot := (List.mem_filter.mp hid).2
    simp [haccepted] at hnot
  · rintro ⟨hfalse, hq⟩
    refine (mem_of_queried hr hq).resolve_left fun hid => ?_
    have htrue := ((mem_acceptIDsOf_iff hkeyed hall hr).mp hid).1
    rw [hfalse] at htrue
    cases htrue

/-- Something is accepted. -/
def anyAccepted (cfg : Config) (reqType : RequestType) (b : PackageBase) (all : Bool)
    (rows : List PackageRequest) : Bool :=
  all && rows.any (queried cfg reqType b)

/-- The requests after `handle_request`. -/
def handled (cfg : Config) (reqType : RequestType) (user : User) (b : PackageBase) (all : Bool)
    (now id : Nat) (rows : List PackageRequest) : List PackageRequest :=
  rows.map (answered cfg reqType user b all now) ++
    if anyAccepted cfg reqType b all rows then [] else [recorded reqType user b now id]

theorem acceptIDsOf_isEmpty (hkeyed : Keyed db)
    (hall : ∀ r, accepts cfg none acceptIDs r = all) :
    (acceptIDsOf cfg db reqType b none acceptIDs).isEmpty =
      !anyAccepted cfg reqType b all db.packageRequests := by
  rw [Bool.eq_iff_iff, List.isEmpty_iff, Bool.not_eq_true', List.eq_nil_iff_forall_not_mem]
  unfold anyAccepted
  constructor
  · intro hnone
    rw [Bool.eq_false_iff]
    intro hany
    rw [Bool.and_eq_true, List.any_eq_true] at hany
    obtain ⟨htrue, r, hr, hq⟩ := hany
    exact hnone r.id ((mem_acceptIDsOf_iff hkeyed hall hr).mpr ⟨htrue, hq⟩)
  · intro hnone id hid
    obtain ⟨r, hr, rfl⟩ := List.mem_map.mp hid
    have hmem := (List.mem_filter.mp (List.mem_filter.mp hr).1).1
    obtain ⟨htrue, hq⟩ := (mem_acceptIDsOf_iff hkeyed hall hmem).mp hid
    rw [htrue, Bool.true_and, List.any_eq_false] at hnone
    exact hnone r hmem hq

/-- `handle_request` for a base, as a function of the requests. -/
theorem handleRequest_eq (user : User) (hkeyed : Keyed db)
    (hall : ∀ r, accepts cfg none acceptIDs r = all)
    (haccept : HasText b none .accepted reqType)
    (hreject : all = false → HasText b none .rejected reqType)
    (hdue : reqType = .orphan → verifyOrphanRequest cfg db b now = true) :
    ∃ n, handleRequest cfg db user reqType b none "" acceptIDs now =
        done { db with
          packageRequests := handled cfg reqType user b all now db.nextID db.packageRequests
          nextID := n } ∧ db.nextID ≤ n ∧
      (anyAccepted cfg reqType b all db.packageRequests = false → n = db.nextID + 1) := by
  have hempty : (acceptIDsOf cfg db reqType b none acceptIDs).isEmpty = _ :=
    acceptIDsOf_isEmpty hkeyed hall
  have hnotDue : ¬(reqType = .orphan ∧ verifyOrphanRequest cfg db b now = false) := by
    rintro ⟨horphan, hfalse⟩
    rw [hdue horphan] at hfalse
    cases hfalse
  have hanswered : ∀ r ∈ db.packageRequests, ∀ ids : List Nat,
      (r.id ∈ ids ↔ all = true ∧ queried cfg reqType b r = true) →
      (if r.id ∈ ids then closed user b .accepted now r
        else if r.id ∈ rejectIDsOf cfg db reqType b none acceptIDs then
          closed user b .rejected now r
        else r) = answered cfg reqType user b all now r := by
    intro r hr ids hids
    have hrejects : r.id ∈ rejectIDsOf cfg db reqType b none acceptIDs ↔ _ :=
      mem_rejectIDsOf_iff hkeyed hall hr
    unfold answered
    by_cases hq : queried cfg reqType b r = true
    · cases all <;> simp [hids, hrejects, hq]
    · simp [hids, hrejects, hq]
  unfold handleRequest
  rw [if_neg hnotDue]
  show ∃ n, (if (acceptIDsOf cfg db reqType b none acceptIDs).isEmpty = true then
      retryClosures (insertRequest db (newRequest reqType user b
        (if reqType = .merge then (none : Option PackageBase).map (·.name) else none)
        "Autogenerated by aurweb." "" now)) user b none [db.nextID]
        (rejectIDsOf cfg db reqType b none acceptIDs) now
    else retryClosures db user b none (acceptIDsOf cfg db reqType b none acceptIDs)
      (rejectIDsOf cfg db reqType b none acceptIDs) now) = _ ∧ _
  rw [hempty]
  have hqueriedType : ∀ r ∈ db.packageRequests, queried cfg reqType b r = true →
      r.reqType = reqType := fun r hr hq => (queried_pending hq).2.1
  have hold : ∀ r ∈ db.packageRequests, r.id ∉ [db.nextID] := by
    intro r hr hid
    have hlt := hkeyed.requests.lt r hr
    have hnew := List.mem_singleton.mp hid
    omega
  by_cases hany : anyAccepted cfg reqType b all db.packageRequests = true
  · refine ⟨db.nextID, ?_, Nat.le_refl _, fun hnone => absurd hany (by simp [hnone])⟩
    rw [if_neg (by simp [hany]), retryClosures_eq]
    · unfold handled
      rw [if_pos hany, List.append_nil]
      refine congrArg (fun rows => done { db with packageRequests := rows }) ?_
      exact List.map_congr_left fun r hr =>
        hanswered r hr _ (mem_acceptIDsOf_iff hkeyed hall hr)
    · intro r hr hid
      rw [hqueriedType r hr ((mem_acceptIDsOf_iff hkeyed hall hr).mp hid).2]
      exact haccept
    · intro r hr hid
      obtain ⟨hfalse, hq⟩ := (mem_rejectIDsOf_iff hkeyed hall hr).mp hid
      rw [hqueriedType r hr hq]
      exact hreject hfalse
  · refine ⟨db.nextID + 1, ?_, Nat.le_succ _, fun _ => rfl⟩
    rw [if_pos (by simp [hany]), Option.map_none, ite_self, retryClosures_eq]
    · unfold handled insertRequest
      rw [if_neg hany]
      refine congrArg (fun rows => done { db with packageRequests := rows, nextID := _ }) ?_
      rw [List.map_append, List.map_singleton, if_pos (List.mem_singleton.mpr rfl)]
      refine congrArg (· ++ _) (List.map_congr_left fun r hr => hanswered r hr _ ?_)
      refine iff_of_false (hold r hr) fun haccepts => hany ?_
      unfold anyAccepted
      rw [haccepts.1, Bool.true_and, List.any_eq_true]
      exact ⟨r, hr, haccepts.2⟩
    · intro r hr hid
      rcases mem_insertRequest hr with hr | rfl
      · exact absurd hid (hold r hr)
      · exact haccept
    · intro r hr hid
      rcases mem_insertRequest hr with hr | rfl
      · obtain ⟨hfalse, hq⟩ := (mem_rejectIDsOf_iff hkeyed hall hr).mp hid
        rw [hqueriedType r hr hq]
        exact hreject hfalse
      · -- The number of the new request is no old one's.
        obtain ⟨r, hr, heq⟩ := List.mem_map.mp (List.mem_filter.mp hid).1
        have hlt := hkeyed.requests.lt r (List.mem_filter.mp hr).1
        have hnew : r.id = db.nextID := heq
        omega

/-! ### Handling them is confined to the base -/

/-- The requests as a base holds them. -/
def held (id : Nat) (rows : List PackageRequest) : List PackageRequest :=
  (rows.filter (·.packageBaseID == some id)).map PackageRequest.withoutID

/-- A test of requests on the base finds them among those it holds. -/
theorem any_held {p : PackageRequest → Bool} {id : Nat}
    (hid : ∀ r : PackageRequest, p r.withoutID = p r)
    (hbase : ∀ r, p r = true → r.packageBaseID = some id) (rows : List PackageRequest) :
    (held id rows).any p = rows.any p := by
  unfold held
  rw [Bool.eq_iff_iff, List.any_eq_true, List.any_eq_true]
  constructor
  · rintro ⟨r', hr', hp⟩
    obtain ⟨r, hr, rfl⟩ := List.mem_map.mp hr'
    exact ⟨r, (List.mem_filter.mp hr).1, (hid r).symm.trans hp⟩
  · rintro ⟨r, hr, hp⟩
    refine ⟨r.withoutID, List.mem_map_of_mem (List.mem_filter.mpr ⟨hr, ?_⟩), (hid r).trans hp⟩
    exact beq_iff_eq.mpr (hbase r hp)

theorem recorded_base (reqType : RequestType) (user : User) (b : PackageBase) (now id : Nat) :
    (recorded reqType user b now id).packageBaseID = some b.id :=
  (closed_id user b (by decide) now _).2

theorem recorded_withoutID (reqType : RequestType) (user : User) (b : PackageBase)
    (now id : Nat) :
    (recorded reqType user b now id).withoutID = recorded reqType user b now 0 :=
  (closed_withoutID user b .accepted now _).symm

theorem anyAccepted_held (cfg : Config) (reqType : RequestType) (b : PackageBase) (all : Bool)
    (rows : List PackageRequest) :
    anyAccepted cfg reqType b all (held b.id rows) = anyAccepted cfg reqType b all rows := by
  unfold anyAccepted
  rw [any_held (fun _ => rfl)]
  intro r hq
  exact (queried_pending hq).2.2

theorem filter_answered (id : Nat) (rows : List PackageRequest) :
    (rows.map (answered cfg reqType user b all now)).filter (·.packageBaseID == some id) =
      (rows.filter (·.packageBaseID == some id)).map (answered cfg reqType user b all now) := by
  rw [List.filter_map]
  refine congrArg _ (List.filter_congr fun r _ => ?_)
  show ((answered cfg reqType user b all now r).packageBaseID == some id) = _
  rw [(answered_id cfg reqType user b all now r).2]

theorem held_handled (id : Nat) (rows : List PackageRequest) :
    held b.id (handled cfg reqType user b all now id rows) =
      handled cfg reqType user b all now 0 (held b.id rows) := by
  unfold handled
  rw [anyAccepted_held]
  unfold held
  rw [List.filter_append, List.map_append, filter_answered, List.map_map, List.map_map]
  have hrecorded : [recorded reqType user b now id].filter (·.packageBaseID == some b.id) =
      [recorded reqType user b now id] := by
    refine List.filter_cons_of_pos ?_
    rw [recorded_base, beq_self_eq_true]
  by_cases hany : anyAccepted cfg reqType b all rows = true
  · rw [if_pos hany, if_pos hany]
    exact congrArg (· ++ []) (List.map_congr_left fun r _ => (answered_withoutID ..).symm)
  · rw [if_neg hany, if_neg hany, hrecorded, List.map_singleton, recorded_withoutID]
    exact congrArg (· ++ _) (List.map_congr_left fun r _ => (answered_withoutID ..).symm)

theorem held_handled_of_ne {id : Nat} (hne : id ≠ b.id) (n : Nat) (rows : List PackageRequest) :
    held id (handled cfg reqType user b all now n rows) = held id rows := by
  have hconcerns : ∀ r : PackageRequest, (r.packageBaseID == some id) = true →
      answered cfg reqType user b all now r = r := by
    intro r hbase
    refine if_neg fun hq => hne ?_
    rw [(queried_pending hq).2.2] at hbase
    exact (Option.some.inj (beq_iff_eq.mp hbase)).symm
  have hrecorded : ((recorded reqType user b now n).packageBaseID == some id) = false := by
    rw [recorded_base]
    simpa using hne.symm
  unfold held handled
  rw [List.filter_append, filter_answered]
  have hkept : (rows.filter (·.packageBaseID == some id)).map
      (answered cfg reqType user b all now) = rows.filter (·.packageBaseID == some id) := by
    refine (List.map_congr_left fun r hr => hconcerns r (List.mem_filter.mp hr).2).trans ?_
    exact List.map_id' _
  rw [hkept]
  by_cases hany : anyAccepted cfg reqType b all rows = true
  · rw [if_pos hany, List.filter_nil, List.append_nil]
  · rw [if_neg hany, List.filter_cons_of_neg (by simp [hrecorded]), List.filter_nil,
      List.append_nil]

theorem keyed_handled (hkeyed : Keyed db) {n : Nat} (hle : db.nextID ≤ n)
    (hnew : anyAccepted cfg reqType b all db.packageRequests = false → n = db.nextID + 1) :
    Keyed { db with
      packageRequests := handled cfg reqType user b all now db.nextID db.packageRequests
      nextID := n } := by
  refine ⟨?_, hkeyed.packages⟩
  have hanswered : Table.Numbered PackageRequest.id db.nextID
      (db.packageRequests.map (answered cfg reqType user b all now)) := by
    refine hkeyed.requests.of_map_eq ?_
    rw [List.map_map]
    exact List.map_congr_left fun r _ => (answered_id cfg reqType user b all now r).1
  show Table.Numbered PackageRequest.id n
    (handled cfg reqType user b all now db.nextID db.packageRequests)
  unfold handled
  by_cases hany : anyAccepted cfg reqType b all db.packageRequests = true
  · rw [if_pos hany, List.append_nil]
    exact hanswered.mono hle
  · rw [if_neg hany, hnew (Bool.eq_false_iff.mpr hany)]
    exact hanswered.insert (closed_id user b (by decide) now _).1

/-- What a base holds when its requests are others. -/
def Holding.withRequests (h : Holding) (rows : List PackageRequest) : Holding :=
  { h with contents := { h.contents with packageRequests := rows } }

theorem holding_requests (db : Db) (rows : List PackageRequest) (n id : Nat) :
    holding { db with packageRequests := rows, nextID := n } id =
      (holding db id).withRequests (held id rows) :=
  rfl

/-- There is an orphan request on the base that is due. -/
def due (cfg : Config) (b : PackageBase) (now : Nat) (rows : List PackageRequest) : Bool :=
  rows.any fun r =>
    r.concerns b && r.isPending .orphan && decide (r.requestTS + cfg.requestIdleTime < now)

theorem due_held (cfg : Config) (b : PackageBase) (now : Nat) (db : Db) :
    due cfg b now (holding db b.id).contents.packageRequests =
      verifyOrphanRequest cfg db b now := by
  refine any_held (fun _ => rfl) (fun r hr => ?_) db.packageRequests
  rw [Bool.and_eq_true, Bool.and_eq_true] at hr
  exact beq_iff_eq.mp hr.1.1

theorem onBase_handleRequest (user : User) (now : Nat) (all : Bool)
    (hall : ∀ r, accepts cfg none acceptIDs r = all)
    (haccept : HasText b none .accepted reqType)
    (hreject : all = false → HasText b none .rejected reqType) :
    OnBase b.id fun db => handleRequest cfg db user reqType b none "" acceptIDs now := by
  let refuses := fun rows => reqType = .orphan ∧ due cfg b now rows = false
  have hrefused : ∀ db, refuses (holding db b.id).contents.packageRequests →
      handleRequest cfg db user reqType b none "" acceptIDs now =
        (.error (.invariant s!"No due existing orphan requests to accept for {b.name}."), db) := by
    rintro db ⟨horphan, hdue⟩
    rw [due_held] at hdue
    exact if_pos ⟨horphan, hdue⟩
  have hgranted : ∀ db, Keyed db → ¬refuses (holding db b.id).contents.packageRequests →
      ∃ n, handleRequest cfg db user reqType b none "" acceptIDs now =
        done { db with
          packageRequests := handled cfg reqType user b all now db.nextID db.packageRequests
          nextID := n } ∧ db.nextID ≤ n ∧
      (anyAccepted cfg reqType b all db.packageRequests = false → n = db.nextID + 1) := by
    intro db hkeyed hnot
    refine handleRequest_eq user hkeyed hall haccept hreject fun horphan => ?_
    rw [← due_held]
    by_contra hdue
    exact hnot ⟨horphan, Bool.eq_false_iff.mpr hdue⟩
  refine .of_view
    (fun h => if refuses h.contents.packageRequests then h
      else h.withRequests (handled cfg reqType user b all now 0 h.contents.packageRequests))
    (fun h => if refuses h.contents.packageRequests then
        .error (.invariant s!"No due existing orphan requests to accept for {b.name}.")
      else .ok ()) ?_ ?_ ?_ ?_
  · intro db hkeyed
    by_cases hr : refuses (holding db b.id).contents.packageRequests
    · rw [hrefused db hr]
      exact hkeyed
    · obtain ⟨n, heq, hle, hnew⟩ := hgranted db hkeyed hr
      rw [heq]
      exact keyed_handled hkeyed hle hnew
  · intro db hkeyed id hne
    by_cases hr : refuses (holding db b.id).contents.packageRequests
    · rw [hrefused db hr]
    · obtain ⟨n, heq, -, -⟩ := hgranted db hkeyed hr
      rw [heq]
      show holding { db with packageRequests := _, nextID := n } id = _
      rw [holding_requests, held_handled_of_ne hne]
      rfl
  · intro db hkeyed
    by_cases hr : refuses (holding db b.id).contents.packageRequests
    · rw [hrefused db hr, if_pos hr]
    · obtain ⟨n, heq, -, -⟩ := hgranted db hkeyed hr
      rw [heq, if_neg hr]
      rfl
  · intro db hkeyed
    by_cases hr : refuses (holding db b.id).contents.packageRequests
    · rw [hrefused db hr, if_pos hr]
    · obtain ⟨n, heq, -, -⟩ := hgranted db hkeyed hr
      rw [heq, if_neg hr]
      show holding { db with packageRequests := _, nextID := n } b.id = _
      rw [holding_requests, held_handled]
      rfl

/-! ### Single statements -/

/-- A function that cannot raise, and then another. -/
theorem onBase_comp {id : Nat} {f g : Db → Db} (hf : OnBase id fun db => done (f db))
    (hg : OnBase id fun db => done (g db)) : OnBase id fun db => done (g (f db)) :=
  hf.bind (fun _ db => done (g db)) fun _ => hg

theorem onBase_andThen {id : Nat} {act next : Db → Outcome} (hact : OnBase id act)
    (hnext : OnBase id next) : OnBase id fun db => (act db).andThen next := by
  refine hact.bind (fun result db => Outcome.andThen (result, db) next) fun result => ?_
  cases result with
  | ok u => exact hnext
  | error e => exact .still (Except.error e)

/-- What a base holds when its own row is another. -/
def Holding.withBase (h : Holding) (rows : List PackageBase) : Holding :=
  { h with standing := { h.standing with base := rows } }

def Holding.withNotifications (h : Holding) (rows : List PackageNotification) : Holding :=
  { h with standing := { h.standing with notifications := rows } }

def Holding.withComaintainers (h : Holding) (rows : List PackageComaintainer) : Holding :=
  { h with contents := { h.contents with packageComaintainers := rows } }

theorem onBase_updatePackageBase (id : Nat) {f : PackageBase → PackageBase}
    (hf : ∀ b, (f b).id = b.id) : OnBase id fun db => done (db.updatePackageBase id f) := by
  refine .of_view (fun h => h.withBase (h.standing.base.map f)) (fun _ => .ok ()) ?_ ?_ ?_ ?_
  · intro db hkeyed
    exact ⟨hkeyed.requests, hkeyed.packages⟩
  · intro db _ other hne
    show (holding db other).withBase ((Table.update (·.id == id) f db.packageBases).filter
      (·.id == other)) = _
    rw [Table.filter_update_of_disjoint (fun b => by rw [hf]) fun b hid hother => ?_]
    · rfl
    · exact hne ((beq_iff_eq.mp hother).symm.trans (beq_iff_eq.mp hid))
  · intro db _
    rfl
  · intro db _
    show (holding db id).withBase ((Table.update (·.id == id) f db.packageBases).filter
      (·.id == id)) = _
    rw [Table.filter_update_self fun b => by rw [hf]]
    rfl

theorem onBase_setMaintainer (id : Nat) (uid : Option Nat) :
    OnBase id fun db => done (setMaintainer db id uid) :=
  onBase_updatePackageBase id fun _ => rfl

/-- The comaintainers of a base become what a function of them says. -/
theorem onBase_comaintainers (id : Nat)
    {F : List PackageComaintainer → List PackageComaintainer → List PackageComaintainer}
    (helse : ∀ mine rows other, other ≠ id → (F mine rows).filter (·.packageBaseID == other) =
      rows.filter (·.packageBaseID == other))
    (hhere : ∀ mine rows, (F mine rows).filter (·.packageBaseID == id) =
      F mine (rows.filter (·.packageBaseID == id))) :
    OnBase id fun db => done { db with
      packageComaintainers := F (db.packageComaintainers.filter (·.packageBaseID == id))
        db.packageComaintainers } := by
  refine .of_view (fun h => h.withComaintainers
    (F h.contents.packageComaintainers h.contents.packageComaintainers)) (fun _ => .ok ())
    ?_ ?_ ?_ ?_
  · intro db hkeyed
    exact ⟨hkeyed.requests, hkeyed.packages⟩
  · intro db _ other hne
    show (holding db other).withComaintainers ((F _ db.packageComaintainers).filter
      (·.packageBaseID == other)) = _
    rw [helse _ _ other hne]
    rfl
  · intro db _
    rfl
  · intro db _
    show (holding db id).withComaintainers ((F _ db.packageComaintainers).filter
      (·.packageBaseID == id)) = _
    rw [hhere]
    rfl

theorem onBase_deleteComaintainers (id : Nat) (p : PackageComaintainer → Bool) :
    OnBase id fun db => done (deleteComaintainers db id p) := by
  refine onBase_comaintainers id (F := fun _ rows => Table.delete (fun c => c.of id && p c) rows)
    ?_ ?_
  · intro _ rows other hne
    refine Table.filter_delete_of_disjoint (fun c hid hother => ?_) rows
    rw [Bool.and_eq_true] at hid
    exact hne ((beq_iff_eq.mp hother).symm.trans (beq_iff_eq.mp hid.1))
  · intro _ rows
    exact Table.filter_delete _ _ rows

theorem onBase_rotateComaintainers (id : Nat) :
    OnBase id fun db => done (rotateComaintainers db id) := by
  refine onBase_comaintainers id (F := fun mine rows => Table.update (·.of id)
    (fun c => { c with
      priority := ((mine.insertionSort fun a b => a.priority ≤ b.priority).map
        (·.usersID)).idxOf c.usersID + 1 }) rows) ?_ ?_
  · intro mine rows other hne
    refine Table.filter_update_of_disjoint ?_ (fun c hid hother => ?_) rows
    · intro c
      rfl
    · exact hne ((beq_iff_eq.mp hother).symm.trans (beq_iff_eq.mp hid))
  · intro mine rows
    refine (Table.filter_update_self (p := (·.of id)) ?_ rows).trans ?_
    · intro c
      rfl
    · refine List.map_congr_left fun c hc => (if_pos ?_).symm
      exact (List.mem_filter.mp hc).2

theorem onBase_removeComaintainer (id uid : Nat) :
    OnBase id fun db => done (removeComaintainer db id uid) :=
  onBase_comp (onBase_rotateComaintainers id) (onBase_deleteComaintainers id _)

theorem onBase_stepDown (id : Nat) : OnBase id fun db => done (stepDown db id) := by
  let next := fun rows : List PackageComaintainer =>
    (rows.insertionSort fun a b => a.priority ≤ b.priority).head?
  let act := fun (next : Option PackageComaintainer) db => done (match next with
    | some next => removeComaintainer (setMaintainer db id (some next.usersID)) id next.usersID
    | none => setMaintainer db id none)
  have hact : ∀ next, OnBase id (act next) := by
    intro next
    cases next with
    | some c => exact onBase_comp (onBase_setMaintainer id _) (onBase_removeComaintainer id _)
    | none => exact onBase_setMaintainer id none
  have hstep : (fun db => done (stepDown db id)) = fun db => act (byPriority db id).head? db := by
    funext db
    unfold stepDown
    cases (byPriority db id).head? with
    | some c => rfl
    | none => rfl
  rw [hstep]
  exact .reading (fun db => (byPriority db id).head?)
    (fun h : Holding => next h.contents.packageComaintainers) (fun db => rfl) hact

theorem onBase_orphan (id : Nat) : OnBase id fun db => done (orphan db id) :=
  onBase_comp (onBase_setMaintainer id none) (onBase_deleteComaintainers id _)

/-! ### The single actions -/

theorem onBase_unflag (user : User) (b : PackageBase) :
    OnBase b.id fun db => done (pkgbaseUnflagInstance db user b) := by
  let mayUnflag := fun rows : List PackageComaintainer => hasCredential user .pkgbaseUnflag
    ([b.flaggerUID, b.maintainerUID] ++ rows.map (some ·.usersID))
  have hact : ∀ may : Bool, OnBase b.id fun db => done (if may = true then
      db.updatePackageBase b.id fun b =>
        { b with outOfDateTS := none, flaggerUID := none, flaggerComment := "" }
      else db) := by
    intro may
    cases may with
    | true => exact onBase_updatePackageBase b.id fun _ => rfl
    | false => exact .still (Except.ok ())
  exact .reading (fun db => mayUnflag (db.packageComaintainers.filter (·.of b.id)))
    (fun h : Holding => mayUnflag h.contents.packageComaintainers) (fun db => rfl) hact

/-- The notifications of a base become what a function of them says. -/
theorem onBase_notifications (id : Nat)
    {F : List PackageNotification → List PackageNotification}
    (helse : ∀ rows other, other ≠ id → (F rows).filter (·.packageBaseID == other) =
      rows.filter (·.packageBaseID == other))
    (hhere : ∀ rows, (F rows).filter (·.packageBaseID == id) =
      F (rows.filter (·.packageBaseID == id))) :
    OnBase id fun db => done { db with packageNotifications := F db.packageNotifications } := by
  refine .of_view (fun h => h.withNotifications (F h.standing.notifications)) (fun _ => .ok ())
    ?_ ?_ ?_ ?_
  · intro db hkeyed
    exact ⟨hkeyed.requests, hkeyed.packages⟩
  · intro db _ other hne
    show (holding db other).withNotifications ((F db.packageNotifications).filter
      (·.packageBaseID == other)) = _
    rw [helse _ other hne]
    rfl
  · intro db _
    rfl
  · intro db _
    show (holding db id).withNotifications ((F db.packageNotifications).filter
      (·.packageBaseID == id)) = _
    rw [hhere]
    rfl

theorem onBase_insertNotification (id uid : Nat) :
    OnBase id fun db => done (insertNotification db id uid) := by
  refine onBase_notifications id (F := fun rows => rows ++ [⟨id, uid⟩]) ?_ ?_
  · intro rows other hne
    have hnew : (id == other) = false := by simpa using hne.symm
    simp [List.filter_append, hnew]
  · intro rows
    simp [List.filter_append]

theorem onBase_notify (user : User) (b : PackageBase) :
    OnBase b.id fun db => done (pkgbaseNotifyInstance db user b) := by
  let notifies := fun follows : Bool => hasCredential user .pkgbaseNotify [] && !follows
  have hact : ∀ follows : Bool, OnBase b.id fun db => done (if notifies follows = true then
      insertNotification db b.id user.id else db) := by
    intro follows
    by_cases h : notifies follows = true
    · simp only [if_pos h]
      exact onBase_insertNotification b.id user.id
    · simp only [if_neg h]
      exact .still (Except.ok ())
  refine .reading (fun db => notified db b.id user.id)
    (fun h : Holding => h.standing.notifications.any (·.userID == user.id)) (fun db => ?_) hact
  show _ = (db.packageNotifications.filter (·.packageBaseID == b.id)).any (·.userID == user.id)
  rw [List.any_filter]
  rfl

theorem onBase_unnotify (user : User) (b : PackageBase) :
    OnBase b.id fun db => done (pkgbaseUnnotifyInstance db user b) := by
  unfold pkgbaseUnnotifyInstance
  by_cases hcred : hasCredential user .pkgbaseNotify [] = true
  · simp only [if_pos hcred]
    refine onBase_notifications b.id (F := fun rows => Table.delete
      (fun n => n.packageBaseID == b.id && n.userID == user.id) rows) ?_ ?_
    · intro rows other hne
      refine Table.filter_delete_of_disjoint (fun n hid hother => ?_) rows
      rw [Bool.and_eq_true] at hid
      exact hne ((beq_iff_eq.mp hother).symm.trans (beq_iff_eq.mp hid.1))
    · intro rows
      exact Table.filter_delete _ _ rows
  · simp only [if_neg hcred]
    exact .still (Except.ok ())

/-- An adoption request that is filed. -/
theorem onBase_insertRequest (id : Nat) {r : PackageRequest} (hr : r.packageBaseID = some id) :
    OnBase id fun db => done (insertRequest db r) := by
  have hnew : ∀ n other, held other [{ r with id := n }] =
      if other = id then [r.withoutID] else [] := by
    intro n other
    unfold held
    by_cases h : other = id
    · rw [List.filter_cons_of_pos (by simp [hr, h]), if_pos h]
      rfl
    · rw [List.filter_cons_of_neg (by simp [hr, Ne.symm h]), if_neg h]
      rfl
  have hheld : ∀ db other, holding (insertRequest db r) other = (holding db other).withRequests
      (held other db.packageRequests ++ held other [{ r with id := db.nextID }]) := by
    intro db other
    unfold held
    rw [← List.map_append, ← List.filter_append]
    rfl
  refine .of_view (fun h => h.withRequests (h.contents.packageRequests ++ [r.withoutID]))
    (fun _ => .ok ()) ?_ ?_ ?_ ?_
  · intro db hkeyed
    exact ⟨hkeyed.requests.insert rfl, hkeyed.packages⟩
  · intro db _ other hne
    show holding (insertRequest db r) other = _
    rw [hheld, hnew, if_neg hne, List.append_nil]
    rfl
  · intro db _
    rfl
  · intro db _
    show holding (insertRequest db r) id = _
    rw [hheld, hnew, if_pos rfl]
    rfl

theorem onBase_adopt (cfg : Config) (user : User) (b : PackageBase) (now : Nat) :
    OnBase b.id fun db => pkgbaseAdoptInstance cfg db user b none now := by
  unfold pkgbaseAdoptInstance
  by_cases hcred : hasCredential user .pkgbaseAdopt [] = true
  · simp only [if_pos hcred]
    have hclose : OnBase b.id fun db =>
        handleRequest cfg db user .adoption b none "" (some []) now :=
      onBase_handleRequest user now false (fun _ => rfl) (hasText_adoption ..)
        fun _ => hasText_adoption ..
    exact onBase_andThen (onBase_setMaintainer b.id (some user.id)) hclose
  · simp only [if_neg hcred]
    let asked := fun rows : List PackageRequest =>
      rows.any fun r => r.concerns b && r.isPending .adoption
    have hact : ∀ waits : Bool, OnBase b.id fun db => if waits = true then done db
        else done (insertRequest db
          (newRequest .adoption user b none "Autogenerated by aurweb." "" now)) := by
      intro waits
      cases waits with
      | true => exact .still (Except.ok ())
      | false => exact onBase_insertRequest b.id rfl
    refine .reading (fun db => asked db.packageRequests)
      (fun h : Holding => asked h.contents.packageRequests) (fun db => ?_) hact
    refine (any_held (fun _ => rfl) (fun r hr => ?_) db.packageRequests).symm
    exact beq_iff_eq.mp (Bool.and_eq_true_iff.mp hr).1

theorem onBase_disown (cfg : Config) (user : User) (b : PackageBase) (now : Nat) :
    OnBase b.id fun db => pkgbaseDisownInstance cfg db user b now := by
  unfold pkgbaseDisownInstance
  by_cases hm : b.maintainerUID = some user.id
  · simp only [if_pos hm]
    exact onBase_stepDown b.id
  simp only [if_neg hm]
  have hclose : OnBase b.id fun db => handleRequest cfg db user .orphan b none "" none now :=
    onBase_handleRequest user now true (fun _ => rfl) ⟨_, rfl⟩ fun h => absurd h (by decide)
  have hact : ∀ lists : Bool, OnBase b.id fun db =>
      if lists = true then done (removeComaintainer db b.id user.id)
      else if hasCredential user .pkgbaseDisown [] then
        (handleRequest cfg db user .orphan b none "" none now).andThen fun db =>
          done (orphan db b.id)
      else done db := by
    intro lists
    cases lists with
    | true => exact onBase_removeComaintainer b.id user.id
    | false =>
        by_cases hcred : hasCredential user .pkgbaseDisown [] = true
        · simp only [if_pos hcred]
          exact onBase_andThen hclose (onBase_orphan b.id)
        · simp only [if_neg hcred]
          exact .still (Except.ok ())
  exact .reading (fun db => isComaintainer db b.id user.id)
    (fun h : Holding => (h.contents.packageComaintainers.map (some ·.usersID)).contains
      (some user.id)) (fun db => rfl) hact

theorem onBase_deletePackageBase (id : Nat) :
    OnBase id fun db => done (db.deletePackageBase id) := by
  refine .of_view (fun _ => ⟨⟨[], [], [], []⟩, ⟨[], [], [], [], [], [], [], [], []⟩⟩)
    (fun _ => .ok ()) ?_ ?_ ?_ ?_
  · intro db hkeyed
    refine ⟨hkeyed.requests.of_map_eq (Table.map_update ?_ _), ?_⟩
    · intro r
      rfl
    · exact hkeyed.packages.sublist ((Table.delete_sublist _ _).map _)
  · intro db hkeyed other hne
    show holding (db.deletePackageBase id) other = _
    unfold holding
    rw [standing_deletePackageBase db hne, contents_deletePackageBase hkeyed.packages hne]
  · intro db _
    rfl
  · intro db _
    show holding (db.deletePackageBase id) id = _
    unfold holding
    rw [(gone_deletePackageBase db id).1, (gone_deletePackageBase db id).2]
    rfl

theorem onBase_delete (cfg : Config) (user : User) (b : PackageBase) (now : Nat) :
    OnBase b.id fun db => pkgbaseDeleteInstance cfg db user b "" now := by
  have hclose : OnBase b.id fun db => handleRequest cfg db user .deletion b none "" none now :=
    onBase_handleRequest user now true (fun _ => rfl) ⟨_, rfl⟩ fun h => absurd h (by decide)
  exact onBase_andThen hclose (onBase_deletePackageBase b.id)

/-! ### The bulk actions -/

/-- The actions of `PACKAGE_ACTIONS`. -/
inductive BulkAction
  | unflag
  | notify
  | unnotify
  | adopt
  | disown
  | delete
  deriving DecidableEq, Repr

def BulkAction.name : BulkAction → String
  | .unflag => "unflag"
  | .notify => "notify"
  | .unnotify => "unnotify"
  | .adopt => "adopt"
  | .disown => "disown"
  | .delete => "delete"

/-- What each of them does with one base. -/
def BulkAction.single (cfg : Config) (user : User) (now : Nat) (a : BulkAction) (b : PackageBase)
    (db : Db) : Outcome :=
  match a with
  | .unflag => done (pkgbaseUnflagInstance db user b)
  | .notify => done (pkgbaseNotifyInstance db user b)
  | .unnotify => done (pkgbaseUnnotifyInstance db user b)
  | .adopt => pkgbaseAdoptInstance cfg db user b none now
  | .disown => pkgbaseDisownInstance cfg db user b now
  | .delete => pkgbaseDeleteInstance cfg db user b "" now

theorem BulkAction.onBase (cfg : Config) (user : User) (now : Nat) (a : BulkAction)
    (b : PackageBase) : OnBase b.id (a.single cfg user now b) := by
  cases a with
  | unflag => exact onBase_unflag user b
  | notify => exact onBase_notify user b
  | unnotify => exact onBase_unnotify user b
  | adopt => exact onBase_adopt cfg user b now
  | disown => exact onBase_disown cfg user b now
  | delete => exact onBase_delete cfg user b now

/-- Each base of the selection has been acted on once, in its turn. -/
structure Ran (cfg : Config) (db : Db) (user : User) (now : Nat) (a : BulkAction)
    (ids : List Nat) (db' : Db) : Prop where
  /-- The selection is the bases of the packages whose ids are given. -/
  bases : ∀ b, b ∈ selectedBases db ids ↔ b ∈ db.packageBases ∧
    ∃ pkg ∈ db.packages, pkg.id ∈ ids ∧ pkg.packageBaseID = b.id
  once : ((selectedBases db ids).map (·.id)).Nodup
  run : db' = (selectedBases db ids).foldl (fun db b => (a.single cfg user now b db).2) db
  /-- Each holds what the action on it alone leaves. -/
  selected : ∀ b ∈ selectedBases db ids,
    holding db' b.id = holding (a.single cfg user now b db).2 b.id
  others : ∀ id, (∀ b ∈ selectedBases db ids, b.id ≠ id) → holding db' id = holding db id

/-- The action has gone through on each of them. -/
structure Applied (cfg : Config) (db : Db) (user : User) (now : Nat) (a : BulkAction)
    (ids : List Nat) (db' : Db) : Prop extends Ran cfg db user now a ids db' where
  ended : ∀ b ∈ selectedBases db ids, (a.single cfg user now b db).1 = .ok ()

/-- Success is reported. -/
def Response.Succeeded (r : Response) : Prop := ∃ messages, r = .render 200 messages

/-- Failure is. -/
def Response.Failed (r : Response) : Prop := ∃ messages, r = .render 400 messages

/-- A bulk action has done nothing or all. -/
structure AllOrNothing (cfg : Config) (db : Db) (user : User) (a : BulkAction) (ids : List Nat)
    (confirm : Bool) (now : Nat) : Prop where
  succeeded : (packagesPost cfg db user ids a.name confirm now).1.Succeeded →
    Applied cfg db user now a ids (packagesPost cfg db user ids a.name confirm now).2
  failed : (packagesPost cfg db user ids a.name confirm now).1.Failed →
    ∀ id, holding (packagesPost cfg db user ids a.name confirm now).2 id = holding db id

/-- What `disown_all` collects from an outcome. -/
def refusal : Except Raised Unit → Option String
  | .error (.invariant message) => some message
  | _ => none

/-- The action has been refused, and has left everything as it was. -/
def Refused (db : Db) (o : Outcome) : Prop := ∃ message, o = (.error (.invariant message), db)

/-- Some of the bases have been disowned, and those whose disowning is refused are on the
page. -/
structure PartlyDisowned (cfg : Config) (db : Db) (user : User) (now : Nat)
    (ids : List Nat) (post : Response × Db) : Prop where
  ran : Ran cfg db user now .disown ids post.2
  each : ∀ b ∈ selectedBases db ids, (BulkAction.disown.single cfg user now b db).1 = .ok () ∨
    Refused db (BulkAction.disown.single cfg user now b db)
  page : post.1 = .render 400 ((selectedBases db ids).filterMap fun b =>
    refusal (BulkAction.disown.single cfg user now b db).1)
  some : ∃ b ∈ selectedBases db ids, Refused db (BulkAction.disown.single cfg user now b db)

/-! ### Which bases -/

theorem nodup_selectedBases (hwf : WellFormed cfg db) (ids : List Nat) :
    ((selectedBases db ids).map (·.id)).Nodup := by
  unfold List.Nodup
  rw [List.pairwise_map]
  exact selectedBases_distinct hwf ids

theorem mem_selectedBases_iff (hwf : WellFormed cfg db) (hkeyed : Keyed db) (ids : List Nat) :
    b ∈ selectedBases db ids ↔ b ∈ db.packageBases ∧
      ∃ pkg ∈ db.packages, pkg.id ∈ ids ∧ pkg.packageBaseID = b.id := by
  unfold selectedBases selectedPackages
  rw [List.mem_dedup, List.mem_filterMap]
  constructor
  · rintro ⟨pkg, hpkg, hbase⟩
    obtain ⟨id, hid, hfound⟩ := List.mem_filterMap.mp hpkg
    have hpkgID := List.find?_some hfound
    have hbaseID := List.find?_some hbase
    refine ⟨List.mem_of_find?_eq_some hbase, pkg, List.mem_of_find?_eq_some hfound, ?_, ?_⟩
    · rw [beq_iff_eq.mp hpkgID]
      exact List.mem_dedup.mp hid
    · exact (beq_iff_eq.mp hbaseID).symm
  · rintro ⟨hb, pkg, hpkg, hid, hbase⟩
    refine ⟨pkg, List.mem_filterMap.mpr ⟨pkg.id, List.mem_dedup.mpr hid, ?_⟩, ?_⟩
    · exact Table.find?_key hkeyed.packages hpkg
    · rw [hbase]
      exact Table.find?_key hwf.bases.nodup hb

/-! ### Running -/

theorem ran_runAll (hwf : WellFormed cfg db) (hkeyed : Keyed db) (user : User) (now : Nat)
    (a : BulkAction) (ids : List Nat) :
    Ran cfg db user now a ids (runAll (a.single cfg user now) (selectedBases db ids) db).2 where
  bases _ := mem_selectedBases_iff hwf hkeyed ids
  once := nodup_selectedBases hwf ids
  run := runAll_snd _ _ db
  selected _ hb := view_runAll_of_mem PackageBase.id
    (fun b _ => a.onBase cfg user now b) (nodup_selectedBases hwf ids) hkeyed hb
  others _ hid := view_runAll_of_notMem PackageBase.id
    (fun b _ => a.onBase cfg user now b) hkeyed hid

/-- The results of the run are those of the actions alone. -/
theorem results_runAll (hwf : WellFormed cfg db) (hkeyed : Keyed db) (user : User) (now : Nat)
    (a : BulkAction) (ids : List Nat) :
    (runAll (a.single cfg user now) (selectedBases db ids) db).1 =
      (selectedBases db ids).map fun b => (a.single cfg user now b db).1 :=
  runAll_fst PackageBase.id (fun b _ => a.onBase cfg user now b)
    (nodup_selectedBases hwf ids) hkeyed

/-- A loop in which nothing raises. -/
theorem forEachBase_eq {action : Db → PackageBase → Outcome} {bases : List PackageBase} {db : Db}
    (hok : ∀ result ∈ (runAll (fun b db => action db b) bases db).1, result = .ok ()) :
    forEachBase action bases db = done (runAll (fun b db => action db b) bases db).2 := by
  induction bases generalizing db with
  | nil => rfl
  | cons b bases ih =>
      have hfirst : (action db b).1 = .ok () := hok _ (by simp [runAll])
      have hrest := @ih (action db b).2 fun result hresult =>
        hok result (List.mem_cons_of_mem _ hresult)
      unfold forEachBase Outcome.andThen
      rw [hfirst]
      exact hrest

/-- A loop that collects refusals. -/
theorem disownAll_eq {bases : List PackageBase} {db : Db}
    (hok : ∀ result ∈ (runAll (BulkAction.disown.single cfg user now) bases db).1,
      result = .ok () ∨ ∃ message, result = .error (.invariant message)) :
    disownAll cfg user now bases db =
      (.ok ((runAll (BulkAction.disown.single cfg user now) bases db).1.filterMap refusal),
        (runAll (BulkAction.disown.single cfg user now) bases db).2) := by
  induction bases generalizing db with
  | nil => rfl
  | cons b bases ih =>
      cases ho : pkgbaseDisownInstance cfg db user b now with
      | mk result db₁ =>
          have hstep : runAll (BulkAction.disown.single cfg user now) (b :: bases) db =
              (result :: (runAll (BulkAction.disown.single cfg user now) bases db₁).1,
                (runAll (BulkAction.disown.single cfg user now) bases db₁).2) := by
            have hsingle : BulkAction.disown.single cfg user now b db = (result, db₁) := ho
            rw [runAll, hsingle]
          rw [hstep] at hok ⊢
          have hrest := ih fun r hr => hok r (List.mem_cons_of_mem _ hr)
          unfold disownAll
          rw [ho]
          rcases hok result List.mem_cons_self with rfl | ⟨message, rfl⟩
          · exact hrest
          · show ((disownAll cfg user now bases db₁).1.map (message :: ·),
              (disownAll cfg user now bases db₁).2) = _
            rw [hrest]
            rfl

/-! ### How the single actions end -/

theorem handleRequest_ok (hkeyed : Keyed db) (hall : ∀ r, accepts cfg none acceptIDs r = all)
    (haccept : HasText b none .accepted reqType)
    (hreject : all = false → HasText b none .rejected reqType)
    (hdue : reqType = .orphan → verifyOrphanRequest cfg db b now = true) :
    (handleRequest cfg db user reqType b none "" acceptIDs now).1 = .ok () := by
  obtain ⟨n, heq, -⟩ := handleRequest_eq user hkeyed hall haccept hreject hdue
  rw [heq]
  rfl

theorem adopt_ok (cfg : Config) (user : User) (hkeyed : Keyed db) (b : PackageBase) (now : Nat) :
    (pkgbaseAdoptInstance cfg db user b none now).1 = .ok () := by
  unfold pkgbaseAdoptInstance
  by_cases hcred : hasCredential user .pkgbaseAdopt [] = true
  · rw [if_pos hcred]
    have hset : Keyed (setMaintainer db b.id (some user.id)) :=
      ⟨hkeyed.requests, hkeyed.packages⟩
    have hnone : ∀ r, accepts cfg none (some []) r = false := fun _ => rfl
    exact handleRequest_ok hset hnone (hasText_adoption ..) (fun _ => hasText_adoption ..)
      fun h => absurd h (by decide)
  · rw [if_neg hcred]
    by_cases hasked : (db.packageRequests.any fun r => r.concerns b && r.isPending .adoption) = true
    · rw [if_pos hasked]
      rfl
    · rw [if_neg hasked]
      rfl

theorem delete_ok (cfg : Config) (user : User) (hkeyed : Keyed db) (b : PackageBase) (now : Nat) :
    (pkgbaseDeleteInstance cfg db user b "" now).1 = .ok () := by
  have hall : ∀ r, accepts cfg none none r = true := fun _ => rfl
  have hclosed : (handleRequest cfg db user .deletion b none "" none now).1 = .ok () :=
    handleRequest_ok hkeyed hall ⟨_, rfl⟩ (fun h => absurd h (by decide))
      fun h => absurd h (by decide)
  unfold pkgbaseDeleteInstance Outcome.andThen
  rw [hclosed]
  rfl

theorem disown_ok_or_refused (cfg : Config) (user : User) (hkeyed : Keyed db) (b : PackageBase)
    (now : Nat) : (pkgbaseDisownInstance cfg db user b now).1 = .ok () ∨
      Refused db (pkgbaseDisownInstance cfg db user b now) := by
  unfold pkgbaseDisownInstance
  by_cases hm : b.maintainerUID = some user.id
  · rw [if_pos hm]
    exact Or.inl rfl
  rw [if_neg hm]
  by_cases hco : isComaintainer db b.id user.id = true
  · rw [if_pos hco]
    exact Or.inl rfl
  rw [if_neg hco]
  by_cases hcred : hasCredential user .pkgbaseDisown [] = true
  · rw [if_pos hcred]
    unfold Outcome.andThen
    by_cases hdue : verifyOrphanRequest cfg db b now = true
    · have hall : ∀ r, accepts cfg none none r = true := fun _ => rfl
      have hclosed : (handleRequest cfg db user .orphan b none "" none now).1 = .ok () :=
        handleRequest_ok hkeyed hall ⟨_, rfl⟩ (fun h => absurd h (by decide)) fun _ => hdue
      rw [hclosed]
      exact Or.inl rfl
    · rw [handleRequest_undue user (Bool.eq_false_iff.mpr hdue)]
      exact Or.inr ⟨_, rfl⟩
  · rw [if_neg hcred]
    exact Or.inl rfl

/-! ### The routes -/

variable {ids : List Nat} {confirm : Bool}

/-- What a bulk action may come to. -/
def Reported (cfg : Config) (db : Db) (user : User) (now : Nat) (a : BulkAction) (ids : List Nat)
    (post : Response × Db) : Prop :=
  (post.1.Succeeded ∧ Applied cfg db user now a ids post.2) ∨
    (post.1.Failed ∧ (post.2 = db ∨ a = .disown ∧ PartlyDisowned cfg db user now ids post))

theorem reported_refused (cfg : Config) (db : Db) (user : User) (now : Nat) (a : BulkAction)
    (ids : List Nat) (message : String) :
    Reported cfg db user now a ids (refused db message) :=
  Or.inr ⟨⟨_, rfl⟩, Or.inl rfl⟩

/-- An action that cannot be refused, on one base after the other. -/
theorem applied_runAll (hwf : WellFormed cfg db) (hkeyed : Keyed db) {a : BulkAction}
    (hok : ∀ b, (a.single cfg user now b db).1 = .ok ()) (ids : List Nat) :
    Applied cfg db user now a ids
      (runAll (a.single cfg user now) (selectedBases db ids) db).2 where
  toRan := ran_runAll hwf hkeyed user now a ids
  ended b _ := hok b

/-- A loop in which nothing raises has run. -/
theorem reported_forEachBase (hwf : WellFormed cfg db) (hkeyed : Keyed db) {a : BulkAction}
    (hok : ∀ b, (a.single cfg user now b db).1 = .ok ()) (ids : List Nat)
    (messages : List String) :
    Reported cfg db user now a ids
      ((forEachBase (fun db b => a.single cfg user now b db) (selectedBases db ids) db).response
        (.render 200 messages)) := by
  have hresults := results_runAll hwf hkeyed user now a ids
  rw [forEachBase_eq]
  · exact Or.inl ⟨⟨_, rfl⟩, applied_runAll hwf hkeyed hok ids⟩
  · intro result hresult
    rw [hresults] at hresult
    obtain ⟨b, -, rfl⟩ := List.mem_map.mp hresult
    exact hok b

/-- The statements of a loop that cannot raise. -/
theorem reported_foldl (hwf : WellFormed cfg db) (hkeyed : Keyed db) {a : BulkAction}
    {f : Db → PackageBase → Db} (hf : ∀ b db, a.single cfg user now b db = done (f db b))
    (ids : List Nat) (messages : List String) :
    Reported cfg db user now a ids
      (.render 200 messages, (selectedBases db ids).foldl f db) := by
  have hrun : (runAll (a.single cfg user now) (selectedBases db ids) db).2 =
      (selectedBases db ids).foldl f db := by
    rw [runAll_snd]
    simp only [hf]
    rfl
  rw [← hrun]
  refine Or.inl ⟨⟨_, rfl⟩, applied_runAll hwf hkeyed (fun b => ?_) ids⟩
  rw [hf]
  rfl

theorem reported_disown (hwf : WellFormed cfg db) (hkeyed : Keyed db) (ids : List Nat)
    (confirm : Bool) : Reported cfg db user now .disown ids
      (packagesDisown cfg db user ids confirm now) := by
  unfold packagesDisown
  simp only
  split
  · exact reported_refused ..
  split
  · exact reported_refused ..
  split
  · exact reported_refused ..
  have heach : ∀ b, (BulkAction.disown.single cfg user now b db).1 = .ok () ∨
      Refused db (BulkAction.disown.single cfg user now b db) :=
    fun b => disown_ok_or_refused cfg user hkeyed b now
  have hran := ran_runAll hwf hkeyed user now .disown ids
  have hresults := results_runAll hwf hkeyed user now .disown ids
  have hall : disownAll cfg user now (selectedBases db ids) db = _ :=
    disownAll_eq fun result hresult => by
      rw [hresults] at hresult
      obtain ⟨b, -, rfl⟩ := List.mem_map.mp hresult
      rcases heach b with hok | ⟨message, hrefused⟩
      · exact Or.inl hok
      · exact Or.inr ⟨message, by rw [hrefused]⟩
  rw [hresults, List.filterMap_map] at hall
  rw [hall]
  cases herrors : (selectedBases db ids).filterMap
      (refusal ∘ fun b => (BulkAction.disown.single cfg user now b db).1) with
  | nil =>
      refine Or.inl ⟨⟨_, rfl⟩, hran, fun b hb => ?_⟩
      rcases heach b with hok | ⟨message, hrefused⟩
      · exact hok
      · -- Its message would be on the page.
        have hnone := List.filterMap_eq_nil_iff.mp herrors b hb
        rw [Function.comp_apply, hrefused] at hnone
        cases hnone
  | cons message messages =>
      refine Or.inr ⟨⟨_, rfl⟩, Or.inr ⟨rfl, hran, fun b _ => heach b, ?_, ?_⟩⟩
      · exact congrArg (Response.render 400) herrors.symm
      · have hmem : message ∈ (selectedBases db ids).filterMap
            (refusal ∘ fun b => (BulkAction.disown.single cfg user now b db).1) := by
          rw [herrors]
          exact List.mem_cons_self
        obtain ⟨b, hb, hrefusal⟩ := List.mem_filterMap.mp hmem
        refine ⟨b, hb, (heach b).resolve_left fun hok => ?_⟩
        rw [Function.comp_apply, hok] at hrefusal
        cases hrefusal

/--
**A bulk action reports what it has done, one base at a time.**  For every selection of packages
and every user: where success is reported, the single action has gone through on every base of
the selection, once, and each base holds what the action on it alone leaves; where failure is
reported nothing has been written, unless the bases were being disowned and the action has been
refused on some of them.  Then those are as they were and on the page, and all others of the
selection have been disowned.
-/
theorem reported_bulkAction (cfg : Config) (db : Db) (user : User) (a : BulkAction)
    (ids : List Nat) (confirm : Bool) (now : Nat) (hwf : WellFormed cfg db) (hkeyed : Keyed db) :
    Reported cfg db user now a ids (packagesPost cfg db user ids a.name confirm now) := by
  cases a with
  | unflag =>
      show Reported cfg db user now .unflag ids (packagesUnflag db user ids)
      unfold packagesUnflag
      simp only
      split
      · exact reported_refused ..
      · exact reported_foldl hwf hkeyed (fun _ _ => rfl) ids _
  | notify =>
      show Reported cfg db user now .notify ids (packagesNotify db user ids)
      unfold packagesNotify
      simp only
      split
      · exact reported_refused ..
      · exact reported_foldl hwf hkeyed (fun _ _ => rfl) ids _
  | unnotify =>
      show Reported cfg db user now .unnotify ids (packagesUnnotify db user ids)
      unfold packagesUnnotify
      simp only
      split
      · exact reported_refused ..
      split
      · exact reported_refused ..
      · exact reported_foldl hwf hkeyed (fun _ _ => rfl) ids _
  | adopt =>
      show Reported cfg db user now .adopt ids (packagesAdopt cfg db user ids confirm now)
      unfold packagesAdopt
      simp only
      split
      · exact reported_refused ..
      split
      · exact reported_refused ..
      split
      · exact reported_refused ..
      · exact reported_forEachBase (a := .adopt) hwf hkeyed
          (fun b => adopt_ok cfg user hkeyed b now) ids _
  | disown =>
      exact reported_disown hwf hkeyed ids confirm
  | delete =>
      show Reported cfg db user now .delete ids (packagesDelete cfg db user ids confirm now)
      unfold packagesDelete
      split
      · exact reported_refused ..
      split
      · exact Or.inr ⟨⟨_, rfl⟩, Or.inl rfl⟩
      split
      · exact reported_refused ..
      split
      · exact reported_refused ..
      · exact reported_forEachBase (a := .delete) hwf hkeyed
          (fun b => delete_ok cfg user hkeyed b now) ids _

/-- `carol`'s base and one of `bob`'s, a package in each. -/
def mixedSite : Db where
  users := smallSite.users
  packageBases := [carols 4 "foo", { carols 5 "bar" with maintainerUID := some 2 }]
  packages := [⟨6, 4, "foo", "1-1", none, none⟩, ⟨7, 5, "bar", "1-1", none, none⟩]
  nextID := 8

theorem mixedSite_wellFormed : WellFormed siteConfig mixedSite where
  bases := ⟨by decide, by decide⟩
  baseNames := by decide
  users := ⟨by decide, by decide⟩
  userNames := by decide
  requests := Table.Numbered.nil
  requestBases := by simp [mixedSite]
  comaintainerBases := by simp [mixedSite]
  comaintainerUsers := by simp [mixedSite]
  voteBases := by simp [mixedSite]
  votes := List.nodup_nil

theorem reported_bulkAction_mixed :
    Reported siteConfig mixedSite (account 2 .packageMaintainer "bob") 300 .disown [6, 7]
      (packagesPost siteConfig mixedSite (account 2 .packageMaintainer "bob") [6, 7]
        BulkAction.disown.name true 300) :=
  reported_bulkAction siteConfig mixedSite _ .disown [6, 7] true 300 mixedSite_wellFormed
    ⟨Table.Numbered.nil, by decide⟩

/-- Nobody has asked to orphan `foo`, which is on the page, and `bob` has given up `bar`. -/
theorem not_allOrNothing_mixed :
    ¬AllOrNothing siteConfig mixedSite (account 2 .packageMaintainer "bob") .disown [6, 7] true
      300 := by
  intro h
  have hsame := h.failed ⟨["No due existing orphan requests to accept for foo."], by decide⟩ 5
  revert hsame
  decide

end Aurweb
