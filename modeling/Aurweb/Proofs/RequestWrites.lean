/-
What is written when requests are handled.

Every function of `packages/requests.py` confines itself to pending requests, and
`handle_request` leaves none of its type pending on the base it was called for.
-/
import Aurweb.Proofs.Writes

namespace Aurweb

section

variable {cfg : Config} {may : May} {db : Db}

/-- The base has not been deleted. -/
def Present (b : PackageBase) (db : Db) : Prop := (b.id, b.name) ∈ db.baseKeys

theorem Present.of_mem {b : PackageBase} (h : b ∈ db.packageBases) : Present b db :=
  List.mem_map_of_mem h

theorem Present.exists {b : PackageBase} (h : Present b db) :
    ∃ b' ∈ db.packageBases, b'.id = b.id ∧ b'.name = b.name := by
  obtain ⟨b', hb', hkey⟩ := List.mem_map.mp h
  exact ⟨b', hb', (Prod.mk.inj hkey).1, (Prod.mk.inj hkey).2⟩

/-! ### Steps of a function that may raise -/

theorem Outcome.andThen_of {P : Db → Prop} {o : Outcome} {next : Db → Outcome} (ho : P o.2)
    (hnext : o.1 = .ok () → P (next o.2).2) : P (o.andThen next).2 := by
  unfold Outcome.andThen
  cases hr : o.1 with
  | error e => exact ho
  | ok u => exact hnext hr

theorem Outcome.response_snd (o : Outcome) (success : Response) :
    (o.response success).2 = o.2 := by
  unfold Outcome.response
  split <;> rfl

/-! ### Closing -/

theorem Closes.settles {r r' : PackageRequest} (h : Closes r r') (hp : r.status = .pending) :
    Settles r r' where
  id := h.id
  reqType := h.reqType
  base := h.base
  baseName := h.baseName
  settled hne := absurd hp hne
  pending _ := Or.inr ⟨h.status, h.closedTS⟩

theorem Settles.refl (r : PackageRequest) : Settles r r where
  id := rfl
  reqType := rfl
  base := rfl
  baseName := rfl
  settled _ := rfl
  pending h := Or.inl ⟨h, rfl⟩

theorem settles_update {p : PackageRequest → Bool} {f : PackageRequest → PackageRequest}
    {rows : List PackageRequest} (h : ∀ r ∈ rows, p r = true → Settles r (f r)) :
    List.Forall₂ Settles rows (Table.update p f rows) := by
  unfold Table.update
  rw [List.forall₂_map_right_iff]
  refine List.forall₂_same.mpr fun r hr => ?_
  by_cases hp : p r = true
  · rw [if_pos hp]
    exact h r hr hp
  · rw [if_neg hp]
    exact Settles.refl r

theorem closePkgreq_eq_ok {closer : User} {pkgbase : PackageBase} {target : Option PackageBase}
    {status : RequestStatus} {now : Nat} {r r' : PackageRequest}
    (h : closePkgreq closer pkgbase target status now r = .ok r') :
    ∃ comment, r' = { r with
      status := status, closedUID := some closer.id, closureComment := comment
      closedTS := some now } := by
  unfold closePkgreq at h
  generalize (if r.closureComment = "" then getClosure r.reqType pkgbase target status
    else .ok r.closureComment) = comment at h
  cases comment with
  | error e => simp [Except.map] at h
  | ok text => exact ⟨text, (Except.ok.inj h).symm⟩

theorem closePkgreq_ok {closer : User} {pkgbase : PackageBase} {target : Option PackageBase}
    {status : RequestStatus} {now : Nat} {r r' : PackageRequest} (hstatus : status ≠ .pending)
    (h : closePkgreq closer pkgbase target status now r = .ok r') : Closes r r' := by
  obtain ⟨text, rfl⟩ := closePkgreq_eq_ok h
  exact ⟨rfl, rfl, rfl, rfl, hstatus, rfl⟩

/-- `retry_closures` closes what it is given, or nothing. -/
theorem retryClosures_cases (db : Db) (closer : User) (pkgbase : PackageBase)
    (target : Option PackageBase) (toAccept toReject : List Nat) (now : Nat) :
    (∃ e, retryClosures db closer pkgbase target toAccept toReject now = (.error e, db)) ∨
    ∃ rows, List.Forall₂
        (fun r r' => r ∈ db.packageRequests ∧
          (r.id ∈ toAccept ∨ r.id ∈ toReject → Closes r r') ∧
          (r.id ∉ toAccept → r.id ∉ toReject → r' = r)) db.packageRequests rows ∧
      retryClosures db closer pkgbase target toAccept toReject now =
        (.ok (), { db with packageRequests := rows }) := by
  unfold retryClosures
  simp only
  split
  · rename_i e he
    exact Or.inl ⟨e, rfl⟩
  · rename_i rows hrows
    refine Or.inr ⟨rows, (Table.forall₂_of_mapM hrows).imp ?_, rfl⟩
    rintro r r' ⟨hr, hclose⟩
    refine ⟨hr, ?_⟩
    by_cases ha : r.id ∈ toAccept
    · rw [if_pos (by simpa using ha)] at hclose
      exact ⟨fun _ => closePkgreq_ok (by decide) hclose, fun hna => absurd ha hna⟩
    · rw [if_neg (by simpa using ha)] at hclose
      by_cases hj : r.id ∈ toReject
      · rw [if_pos (by simpa using hj)] at hclose
        exact ⟨fun _ => closePkgreq_ok (by decide) hclose, fun _ hnj => absurd hj hnj⟩
      · rw [if_neg (by simpa using hj)] at hclose
        exact ⟨fun hor => absurd hor (by simp [ha, hj]), fun _ _ => (Except.ok.inj hclose).symm⟩

theorem retryClosures_writes {closer : User} {pkgbase : PackageBase}
    {target : Option PackageBase} {toAccept toReject : List Nat} {now : Nat}
    (hpending : ∀ r ∈ db.packageRequests, r.id ∈ toAccept ∨ r.id ∈ toReject →
      r.status = .pending) :
    Writes cfg may db (retryClosures db closer pkgbase target toAccept toReject now).2 := by
  rcases retryClosures_cases db closer pkgbase target toAccept toReject now with
    ⟨e, he⟩ | ⟨rows, hrows, heq⟩
  · rw [he]
  · rw [heq]
    refine Writes.one (.settle (hrows.imp ?_))
    rintro r r' ⟨hr, hcloses, hsame⟩
    by_cases hid : r.id ∈ toAccept ∨ r.id ∈ toReject
    · exact (hcloses hid).settles (hpending r hr hid)
    · rw [not_or] at hid
      rw [hsame hid.1 hid.2]
      exact Settles.refl r

/-- There is a text for a request of the type that is closed with the status. -/
def HasText (pkgbase : PackageBase) (target : Option PackageBase) (status : RequestStatus)
    (reqType : RequestType) : Prop :=
  ∃ text, getClosure reqType pkgbase target status = .ok text

theorem closePkgreq_of_text {closer : User} {pkgbase : PackageBase} {target : Option PackageBase}
    {status : RequestStatus} {now : Nat} {r : PackageRequest}
    (h : HasText pkgbase target status r.reqType) :
    ∃ r', closePkgreq closer pkgbase target status now r = .ok r' := by
  obtain ⟨text, htext⟩ := h
  unfold closePkgreq
  simp only [htext]
  split <;> exact ⟨_, rfl⟩

/-- `retry_closures` goes through where there is a text for all it is given. -/
theorem retryClosures_ok {closer : User} {pkgbase : PackageBase} {target : Option PackageBase}
    {toAccept toReject : List Nat} {now : Nat}
    (haccept : ∀ r ∈ db.packageRequests, r.id ∈ toAccept →
      HasText pkgbase target .accepted r.reqType)
    (hreject : ∀ r ∈ db.packageRequests, r.id ∈ toReject →
      HasText pkgbase target .rejected r.reqType) :
    (retryClosures db closer pkgbase target toAccept toReject now).1 = .ok () := by
  obtain ⟨rows, hrows⟩ := Table.exists_mapM_ok
    (f := fun r =>
      if toAccept.contains r.id then closePkgreq closer pkgbase target .accepted now r
      else if toReject.contains r.id then closePkgreq closer pkgbase target .rejected now r
      else .ok r) db.packageRequests fun r hr => by
        by_cases ha : r.id ∈ toAccept
        · rw [if_pos (by simpa using ha)]
          exact closePkgreq_of_text (haccept r hr ha)
        rw [if_neg (by simpa using ha)]
        by_cases hj : r.id ∈ toReject
        · rw [if_pos (by simpa using hj)]
          exact closePkgreq_of_text (hreject r hr hj)
        · rw [if_neg (by simpa using hj)]
          exact ⟨r, rfl⟩
  unfold retryClosures
  simp only
  rw [hrows]
  rfl

theorem hasText_adoption (pkgbase : PackageBase) (target : Option PackageBase)
    (status : RequestStatus) : HasText pkgbase target status .adoption := by
  by_cases hstatus : status = .rejected <;> simp [HasText, getClosure, hstatus]

theorem hasText_merge (pkgbase target : PackageBase) (status : RequestStatus) :
    HasText pkgbase (some target) status .merge := by
  by_cases hstatus : status = .rejected <;> simp [HasText, getClosure, hstatus]

/-- There is nothing an adoption could not be closed for. -/
theorem retryClosures_adoption {closer : User} {pkgbase : PackageBase}
    {target : Option PackageBase} {toAccept toReject : List Nat} {now : Nat}
    (h : ∀ r ∈ db.packageRequests, r.id ∈ toAccept ∨ r.id ∈ toReject → r.reqType = .adoption) :
    (retryClosures db closer pkgbase target toAccept toReject now).1 = .ok () :=
  retryClosures_ok (fun r hr hid => h r hr (Or.inl hid) ▸ hasText_adoption ..)
    fun r hr hid => h r hr (Or.inr hid) ▸ hasText_adoption ..

/-! ### `handle_request` -/

/-- The ids `handle_request` accepts. -/
def acceptIDsOf (cfg : Config) (db : Db) (reqType : RequestType) (pkgbase : PackageBase)
    (target : Option PackageBase) (acceptIDs : Option (List Nat)) : List Nat :=
  ((db.packageRequests.filter (queried cfg reqType pkgbase)).filter
    (accepts cfg target acceptIDs)).map (·.id)

/-- The ids it rejects. -/
def rejectIDsOf (cfg : Config) (db : Db) (reqType : RequestType) (pkgbase : PackageBase)
    (target : Option PackageBase) (acceptIDs : Option (List Nat)) : List Nat :=
  ((db.packageRequests.filter (queried cfg reqType pkgbase)).map (·.id)).filter fun id =>
    !(acceptIDsOf cfg db reqType pkgbase target acceptIDs).contains id

/-- What `handle_request` does, in three cases. -/
theorem handleRequest_cases (cfg : Config) (db : Db) (user : User) (reqType : RequestType)
    (pkgbase : PackageBase) (target : Option PackageBase) (comments : String)
    (acceptIDs : Option (List Nat)) (now : Nat) :
    let toAccept := acceptIDsOf cfg db reqType pkgbase target acceptIDs
    let toReject := rejectIDsOf cfg db reqType pkgbase target acceptIDs
    (∃ e, reqType = .orphan ∧
      handleRequest cfg db user reqType pkgbase target comments acceptIDs now =
      (.error e, db)) ∨
    (∃ mergeInto, toAccept = [] ∧
      handleRequest cfg db user reqType pkgbase target comments acceptIDs now =
      retryClosures
        (insertRequest db
          (newRequest reqType user pkgbase mergeInto "Autogenerated by aurweb." comments now))
        user pkgbase target [db.nextID] toReject now) ∨
    handleRequest cfg db user reqType pkgbase target comments acceptIDs now =
      retryClosures db user pkgbase target toAccept toReject now := by
  intro toAccept toReject
  unfold handleRequest
  by_cases hdue : reqType = .orphan ∧ verifyOrphanRequest cfg db pkgbase now = false
  · rw [if_pos hdue]
    exact Or.inl ⟨_, hdue.1, rfl⟩
  · rw [if_neg hdue]
    simp only
    by_cases hempty : (acceptIDsOf cfg db reqType pkgbase target acceptIDs).isEmpty = true
    · exact Or.inr (Or.inl ⟨_, List.isEmpty_iff.mp hempty, if_pos hempty⟩)
    · exact Or.inr (Or.inr (if_neg hempty))

variable {user : User} {reqType : RequestType} {pkgbase : PackageBase}
  {target : Option PackageBase} {comments : String} {acceptIDs : Option (List Nat)} {now : Nat}

/-- The ids belong to rows of the query. -/
theorem queried_of_mem (hrequests : Table.Numbered PackageRequest.id db.nextID db.packageRequests)
    {r : PackageRequest} (hr : r ∈ db.packageRequests)
    (hid : r.id ∈ acceptIDsOf cfg db reqType pkgbase target acceptIDs ∨
      r.id ∈ rejectIDsOf cfg db reqType pkgbase target acceptIDs) :
    queried cfg reqType pkgbase r = true := by
  have hquery : r.id ∈ (db.packageRequests.filter (queried cfg reqType pkgbase)).map (·.id) := by
    rcases hid with hid | hid
    · obtain ⟨r₀, hr₀, heq⟩ := List.mem_map.mp hid
      exact List.mem_map.mpr ⟨r₀, (List.mem_filter.mp hr₀).1, heq⟩
    · exact (List.mem_filter.mp hid).1
  obtain ⟨r₀, hr₀, heq⟩ := List.mem_map.mp hquery
  obtain ⟨hmem, hq⟩ := List.mem_filter.mp hr₀
  rw [← hrequests.eq_of_key hmem hr heq]
  exact hq

/-- Every row of the query is accepted or rejected. -/
theorem mem_of_queried {r : PackageRequest} (hr : r ∈ db.packageRequests)
    (hq : queried cfg reqType pkgbase r = true) :
    r.id ∈ acceptIDsOf cfg db reqType pkgbase target acceptIDs ∨
      r.id ∈ rejectIDsOf cfg db reqType pkgbase target acceptIDs := by
  by_cases ha : r.id ∈ acceptIDsOf cfg db reqType pkgbase target acceptIDs
  · exact Or.inl ha
  · refine Or.inr (List.mem_filter.mpr ⟨?_, by simpa using ha⟩)
    exact List.mem_map_of_mem (List.mem_filter.mpr ⟨hr, hq⟩)

theorem queried_pending {r : PackageRequest} (hq : queried cfg reqType pkgbase r = true) :
    r.status = .pending ∧ r.reqType = reqType ∧ r.packageBaseID = some pkgbase.id := by
  simp only [queried, PackageRequest.concerns, PackageRequest.isPending, Bool.and_eq_true,
    beq_iff_eq] at hq
  exact ⟨hq.1.2.2, hq.1.2.1, hq.1.1⟩

theorem Present.named {b : PackageBase} (h : Present b db) :
    ∃ b' ∈ db.packageBases, some b.id = some b'.id ∧ cfg.sameName b.name b'.name = true := by
  obtain ⟨b', hb', hid, hname⟩ := h.exists
  exact ⟨b', hb', by rw [hid], by rw [hname]; exact cfg.sameName_refl _⟩

/-- Filing a request for a base that is there; an adoption is asked for once, and of an orphan. -/
theorem file_writes (hp : Present pkgbase db) (mergeInto : Option String) (filed closure : String)
    (hadoption : reqType = .adoption → ∀ b ∈ db.packageBases, b.id = pkgbase.id →
      b.maintainerUID = none ∧ Unrequested db b.id) :
    Writes cfg may db
      (insertRequest db (newRequest reqType user pkgbase mergeInto filed closure now)) := by
  refine Writes.one (.file ⟨Or.inl ⟨rfl, rfl⟩, hp.named, fun hpending b hb hid => ?_⟩)
  have htype : reqType = .adoption := by
    simpa [newRequest, PackageRequest.isPending] using hpending
  exact hadoption htype b hb (Option.some.inj hid).symm

theorem mem_insertRequest {r r' : PackageRequest} (h : r' ∈ (insertRequest db r).packageRequests) :
    r' ∈ db.packageRequests ∨ r' = { r with id := db.nextID } := by
  rcases List.mem_append.mp h with h | h
  · exact Or.inl h
  · exact Or.inr (List.mem_singleton.mp h)

/-- A request that puts an action on record is closed as it is filed, with the rejected ones. -/
theorem recorded_writes (hwf : WellFormed cfg db) (hp : Present pkgbase db)
    (mergeInto : Option String) (comments : String) :
    Writes cfg may db
      (retryClosures
        (insertRequest db
          (newRequest reqType user pkgbase mergeInto "Autogenerated by aurweb." comments now))
        user pkgbase target [db.nextID] (rejectIDsOf cfg db reqType pkgbase target acceptIDs)
        now).2 := by
  have hqueried : ∀ r ∈ db.packageRequests, r.id ∈ [db.nextID] ∨
      r.id ∈ rejectIDsOf cfg db reqType pkgbase target acceptIDs →
      queried cfg reqType pkgbase r = true := by
    intro r hr hid
    rcases hid with hid | hid
    · have hlt : r.id < db.nextID := hwf.requests.lt r hr
      have hnew := List.mem_singleton.mp hid
      omega
    · exact queried_of_mem hwf.requests hr (Or.inr hid)
  generalize hfiled : newRequest reqType user pkgbase mergeInto "Autogenerated by aurweb." comments
    now = filed
  rcases retryClosures_cases (insertRequest db filed) user pkgbase target [db.nextID]
      (rejectIDsOf cfg db reqType pkgbase target acceptIDs) now with ⟨e, he⟩ | ⟨rows, hrows, heq⟩
  · rw [he, ← hfiled]
    refine file_writes hp mergeInto _ comments fun htype => ?_
    have hok : (retryClosures (insertRequest db filed) user pkgbase target [db.nextID]
        (rejectIDsOf cfg db reqType pkgbase target acceptIDs) now).1 = .ok () := by
      refine retryClosures_adoption fun r hr hid => ?_
      rcases mem_insertRequest hr with hr | rfl
      · exact (queried_pending (hqueried r hr hid)).2.1.trans htype
      · rw [← hfiled]
        exact htype
    rw [he] at hok
    cases hok
  · rw [heq]
    obtain ⟨settled, closed, hsettled, hclosed, rfl⟩ := Table.forall₂_append hrows
    obtain ⟨r', rest, hr', hrest, rfl⟩ := List.forall₂_cons_left_iff.mp hclosed
    obtain rfl := List.forall₂_nil_left_iff.mp hrest
    have hcloses : Closes { filed with id := db.nextID } r' :=
      hr'.2.1 (Or.inl (List.mem_singleton.mpr rfl))
    have hsettle : Write cfg may db { db with packageRequests := settled } := by
      refine .settle (hsettled.imp ?_)
      rintro r r₁ ⟨hr, hclose, hsame⟩
      by_cases hid : r.id ∈ [db.nextID] ∨
          r.id ∈ rejectIDsOf cfg db reqType pkgbase target acceptIDs
      · refine (hclose hid).settles ?_
        rcases mem_insertRequest hr with hr | rfl
        · exact (queried_pending (hqueried r hr hid)).1
        · rw [← hfiled]
          rfl
      · rw [not_or] at hid
        rw [hsame hid.1 hid.2]
        exact Settles.refl r
    have hfile : Write cfg may { db with packageRequests := settled }
        (insertRequest { db with packageRequests := settled } r') := by
      refine .file ⟨Or.inr ⟨hcloses.status, hcloses.closedTS⟩, ?_, fun hpending => ?_⟩
      · rw [hcloses.base, hcloses.baseName, ← hfiled]
        exact hp.named
      · simp only [PackageRequest.isPending, Bool.and_eq_true, beq_iff_eq] at hpending
        exact absurd hpending.2 hcloses.status
    have hsame : { r' with id := db.nextID } = r' := by
      have hid : r'.id = db.nextID := hcloses.id
      rw [← hid]
    refine (Writes.one hsettle).trans (Writes.one ?_)
    simpa only [insertRequest, hsame] using hfile

theorem handleRequest_writes (hwf : WellFormed cfg db) (hp : Present pkgbase db) :
    Writes cfg may db
      (handleRequest cfg db user reqType pkgbase target comments acceptIDs now).2 := by
  rcases handleRequest_cases cfg db user reqType pkgbase target comments acceptIDs now with
    ⟨e, -, he⟩ | ⟨mergeInto, -, heq⟩ | heq
  · rw [he]
  · rw [heq]
    exact recorded_writes hwf hp mergeInto comments
  · rw [heq]
    exact retryClosures_writes fun r hr hid =>
      (queried_pending (queried_of_mem hwf.requests hr hid)).1

/-- Nothing but requests is touched. -/
theorem handleRequest_frame (cfg : Config) (db : Db) (user : User) (reqType : RequestType)
    (pkgbase : PackageBase) (target : Option PackageBase) (comments : String)
    (acceptIDs : Option (List Nat)) (now : Nat) :
    ∃ rows n, (handleRequest cfg db user reqType pkgbase target comments acceptIDs now).2 =
      { db with packageRequests := rows, nextID := n } := by
  have hclosures : ∀ (db : Db) toAccept toReject, ∃ rows,
      (retryClosures db user pkgbase target toAccept toReject now).2 =
        { db with packageRequests := rows } := by
    intro db toAccept toReject
    rcases retryClosures_cases db user pkgbase target toAccept toReject now with
      ⟨e, he⟩ | ⟨rows, -, heq⟩
    · exact ⟨db.packageRequests, by rw [he]⟩
    · exact ⟨rows, by rw [heq]⟩
  rcases handleRequest_cases cfg db user reqType pkgbase target comments acceptIDs now with
    ⟨e, -, he⟩ | ⟨mergeInto, -, heq⟩ | heq
  · exact ⟨db.packageRequests, db.nextID, by rw [he]⟩
  · obtain ⟨rows, hrows⟩ := hclosures (insertRequest db (newRequest reqType user pkgbase mergeInto
      "Autogenerated by aurweb." comments now)) [db.nextID]
      (rejectIDsOf cfg db reqType pkgbase target acceptIDs)
    exact ⟨rows, db.nextID + 1, by rw [heq, hrows]; rfl⟩
  · obtain ⟨rows, hrows⟩ := hclosures db (acceptIDsOf cfg db reqType pkgbase target acceptIDs)
      (rejectIDsOf cfg db reqType pkgbase target acceptIDs)
    exact ⟨rows, db.nextID, by rw [heq, hrows]⟩

/-- A request that is still pending was pending before, of another type or about another
base than the one that was handled. -/
def StillPending (db : Db) (reqType : RequestType) (baseID : Nat) (r' : PackageRequest) : Prop :=
  ∃ r ∈ db.packageRequests, r.status = .pending ∧ r.reqType = r'.reqType ∧
    r.packageBaseID = r'.packageBaseID ∧ (r'.packageBaseID = some baseID → r'.reqType ≠ reqType)

/-- `handle_request` leaves nothing of its type pending on its base. -/
theorem handleRequest_pending (hwf : WellFormed cfg db) (hp : Present pkgbase db)
    (hok : (handleRequest cfg db user reqType pkgbase target comments acceptIDs now).1 = .ok ())
    {r' : PackageRequest}
    (hr' : r' ∈
      (handleRequest cfg db user reqType pkgbase target comments acceptIDs now).2.packageRequests)
    (hpending : r'.status = .pending) : StillPending db reqType pkgbase.id r' := by
  obtain ⟨b, hb, hbid, hbname⟩ := hp.exists
  -- A row that was not closed is one the query did not find.
  have hold : ∀ r ∈ db.packageRequests, r.status = .pending →
      r.id ∉ acceptIDsOf cfg db reqType pkgbase target acceptIDs →
      r.id ∉ rejectIDsOf cfg db reqType pkgbase target acceptIDs →
      StillPending db reqType pkgbase.id r := by
    intro r hr hrp hna hnj
    refine ⟨r, hr, hrp, rfl, rfl, fun hbase htype => ?_⟩
    obtain ⟨b', hb', hbid', hname⟩ := hwf.requestBases r hr _ hbase
    rw [hwf.base_eq hb' hb (hbid'.trans hbid.symm), hbname] at hname
    have hq : queried cfg reqType pkgbase r = true := by
      simp [queried, PackageRequest.concerns, PackageRequest.isPending, hbase, htype, hrp, hname]
    rcases mem_of_queried hr hq with ha | hj
    · exact hna ha
    · exact hnj hj
  -- What the closures leave pending they have not touched.
  have hrest : ∀ (db₁ : Db) toAccept toReject,
      (retryClosures db₁ user pkgbase target toAccept toReject now).1 = .ok () →
      r' ∈ (retryClosures db₁ user pkgbase target toAccept toReject now).2.packageRequests →
      r' ∈ db₁.packageRequests ∧ r'.id ∉ toAccept ∧ r'.id ∉ toReject := by
    intro db₁ toAccept toReject hok' hmem
    rcases retryClosures_cases db₁ user pkgbase target toAccept toReject now with
      ⟨e, he⟩ | ⟨rows, hrows, heq⟩
    · rw [he] at hok'
      cases hok'
    · rw [heq] at hmem
      obtain ⟨r, hr, -, hcloses, hsame⟩ := Table.exists_of_forall₂ hrows hmem
      by_cases hid : r.id ∈ toAccept ∨ r.id ∈ toReject
      · exact absurd hpending (hcloses hid).status
      · rw [not_or] at hid
        rw [hsame hid.1 hid.2]
        exact ⟨hr, hid.1, hid.2⟩
  rcases handleRequest_cases cfg db user reqType pkgbase target comments acceptIDs now with
    ⟨e, -, he⟩ | ⟨mergeInto, hnone, heq⟩ | heq
  · rw [he] at hok
    cases hok
  · rw [heq] at hok hr'
    obtain ⟨hmem, hna, hnj⟩ := hrest _ _ _ hok hr'
    rcases mem_insertRequest hmem with hmem | rfl
    · exact hold r' hmem hpending (by rw [hnone]; simp) hnj
    · simp at hna
  · rw [heq] at hok hr'
    obtain ⟨hmem, hna, hnj⟩ := hrest _ _ _ hok hr'
    exact hold r' hmem hpending hna hnj

end

end Aurweb
