/-
What `handle_request` does with the requests on a package base.

Undisturbed, the two queries split what is open of the type on the base, every row of either
half is closed once, and a row is created where nothing is accepted; `Handled` says so row by
row.  The queries name the base twice, by id and by name, and as a request keeps the name of
its base the second adds nothing.
-/
import Aurweb.HandleRequest
import Aurweb.Proofs.RequestWrites

namespace Aurweb.HandleRequest

/-- The requests the function is about: pending, of the type, on the base. -/
def Open (reqType : RequestType) (pkgbase : PackageBase) (r : PackageRequest) : Bool :=
  r.concerns pkgbase && r.isPending reqType

/-- A request before and after it is closed: the comment it had stays. -/
structure Closed (closer : User) (status : RequestStatus) (now : Nat) (r r' : PackageRequest) :
    Prop where
  row : r' = { r with
    status := status, closedUID := some closer.id, closedTS := some now
    closureComment := r'.closureComment }
  comment : r.closureComment ≠ "" → r'.closureComment = r.closureComment

/-- What becomes of a request that is accepted or rejected. -/
def verdict (cfg : Config) (target : Option PackageBase) (acceptIDs : Option (List Nat))
    (r : PackageRequest) : RequestStatus :=
  if accepts cfg target acceptIDs r then .accepted else .rejected

/-- The request that puts an action on record. -/
def recorded (db : Db) (user : User) (reqType : RequestType) (pkgbase : PackageBase)
    (target : Option PackageBase) (comments : String) (now : Nat) : PackageRequest :=
  { newRequest reqType user pkgbase (if reqType = .merge then target.map (·.name) else none)
      "Autogenerated by aurweb." comments now with id := db.nextID }

/-- The open requests of the type on the base are closed, those that match as accepted and the
others as rejected, an accepted one is created if none matches, every other row is as it was,
and there is one notification for each row that was closed, with what it was closed as. -/
structure Handled (cfg : Config) (db : Db) (user : User) (reqType : RequestType)
    (pkgbase : PackageBase) (target : Option PackageBase) (comments : String)
    (acceptIDs : Option (List Nat)) (now : Nat) (notifs : List Notification) (db' : Db) :
    Prop where
  frame : db' = { db with packageRequests := db'.packageRequests, nextID := db'.nextID }
  rows : ∃ rows created, db'.packageRequests = rows ++ created ∧
    List.Forall₂
      (fun r r' =>
        if Open reqType pkgbase r then Closed user (verdict cfg target acceptIDs r) now r r'
        else r' = r) db.packageRequests rows ∧
    ((∃ r ∈ db.packageRequests, Open reqType pkgbase r ∧ accepts cfg target acceptIDs r) →
      created = []) ∧
    ((∀ r ∈ db.packageRequests, Open reqType pkgbase r → ¬accepts cfg target acceptIDs r) →
      ∃ r', created = [r'] ∧
        Closed user .accepted now (recorded db user reqType pkgbase target comments now) r') ∧
    (notifs.map (·.reqID)).Perm
      ((db.packageRequests.filter (Open reqType pkgbase)).map (·.id) ++ created.map (·.id))
  notified : ∀ n ∈ notifs, n.uid = user.id ∧
    ∃ r' ∈ db'.packageRequests, r'.id = n.reqID ∧ n.reason = statusDisplay r'.status

variable {cfg : Config} {db : Db} {user : User} {reqType : RequestType} {pkgbase : PackageBase}
  {target : Option PackageBase} {comments : String} {acceptIDs : Option (List Nat)} {now : Nat}

/-! ### Closing rows -/

theorem closeRow_self {status : RequestStatus} {r r' : PackageRequest}
    (h : closeRow user pkgbase target now (r, status) r = .ok r') :
    Closed user status now r r' := by
  unfold closeRow at h
  cases hclose : closePkgreq user pkgbase target status now r with
  | error e => simp [hclose, Except.map] at h
  | ok closed =>
      obtain ⟨text, rfl⟩ := closePkgreq_eq_ok hclose
      rw [hclose] at h
      obtain rfl := Except.ok.inj h
      exact ⟨rfl, fun hne => if_neg hne⟩

/-- Every row is closed as the one object that stands for it is, and a row without an object
stays. -/
theorem retryClosures_rows {closures : List Closure} {db' : Db}
    (hnodup : (db.packageRequests.map (·.id)).Nodup)
    (hrows : ∀ c ∈ closures, c.1 ∈ db.packageRequests)
    (honce : ∀ c ∈ closures, ∀ c' ∈ closures, c.1 = c'.1 → c.2 = c'.2)
    (h : retryClosures db user pkgbase target closures now = (.ok (), db')) :
    ∃ rows, db' = { db with packageRequests := rows } ∧
      List.Forall₂ (fun r r' => r ∈ db.packageRequests ∧
        (∀ status, (r, status) ∈ closures → Closed user status now r r') ∧
          ((∀ status, (r, status) ∉ closures) → r' = r)) db.packageRequests rows := by
  unfold retryClosures at h
  split at h
  · exact absurd (congrArg Prod.fst h) (by simp)
  rename_i rows hclose
  refine ⟨rows, (congrArg Prod.snd h).symm, ?_⟩
  refine (Table.forall₂_of_mapM hclose).imp fun r r' hr => ?_
  obtain ⟨hmem, hr⟩ := hr
  refine ⟨hmem, ?_⟩
  cases hfind : closures.find? (·.1.id == r.id) with
  | none =>
      rw [hfind] at hr
      have hnone := List.find?_eq_none.mp hfind
      refine ⟨fun status hin => ?_, fun _ => (Except.ok.inj hr).symm⟩
      exact absurd (beq_self_eq_true r.id) (hnone _ hin)
  | some closure =>
      rw [hfind] at hr
      have hin := List.mem_of_find?_eq_some hfind
      have hid : closure.1.id = r.id := by simpa using List.find?_some hfind
      have hsame : closure.1 = r := List.inj_on_of_nodup_map hnodup (hrows _ hin) hmem hid
      obtain ⟨object, status⟩ := closure
      obtain rfl : object = r := hsame
      refine ⟨fun status' hin' => ?_, fun hout => absurd hin (hout status)⟩
      obtain rfl : status' = status := honce _ hin' _ hin rfl
      exact closeRow_self hr

theorem Closed.id {closer : User} {status : RequestStatus} {r r' : PackageRequest}
    (h : Closed closer status now r r') : r'.id = r.id := by
  rw [h.row]

theorem Closed.status {closer : User} {status : RequestStatus} {r r' : PackageRequest}
    (h : Closed closer status now r r') : r'.status = status := by
  rw [h.row]

/-- The notifications are those of the objects, and say what has become of their rows. -/
theorem notifications_ok {closures : List Closure} {notifs : List Notification} {db' : Db}
    (hnodup : (db.packageRequests.map (·.id)).Nodup)
    (hrows : ∀ c ∈ closures, c.1 ∈ db.packageRequests)
    (honce : ∀ c ∈ closures, ∀ c' ∈ closures, c.1 = c'.1 → c.2 = c'.2)
    (h : notifications user closures (retryClosures db user pkgbase target closures now) =
      (.ok notifs, db')) :
    ∃ rows, db' = { db with packageRequests := rows } ∧
      List.Forall₂ (fun r r' => r ∈ db.packageRequests ∧
        (∀ status, (r, status) ∈ closures → Closed user status now r r') ∧
          ((∀ status, (r, status) ∉ closures) → r' = r)) db.packageRequests rows ∧
      notifs.map (·.reqID) = closures.map (·.1.id) ∧
      ∀ n ∈ notifs, n.uid = user.id ∧
        ∃ r' ∈ rows, r'.id = n.reqID ∧ n.reason = statusDisplay r'.status := by
  unfold notifications at h
  split at h
  · exact absurd (congrArg Prod.fst h) (by simp)
  rename_i db₁ hclosed
  obtain ⟨rows, rfl, hclosures⟩ := retryClosures_rows hnodup hrows honce hclosed
  obtain ⟨hnotifs, hdb⟩ := Prod.mk.inj h
  obtain rfl := Except.ok.inj hnotifs
  refine ⟨rows, hdb.symm, hclosures, by simp, fun n hn => ?_⟩
  obtain ⟨c, hc, rfl⟩ := List.mem_map.mp hn
  obtain ⟨r', hr', -, hall, -⟩ := Table.exists_of_forall₂_left hclosures (hrows c hc)
  have hclosed := hall c.2 hc
  exact ⟨rfl, r', hr', hclosed.id, by rw [hclosed.status]⟩

/-! ### The queries -/

theorem queried_eq_open (hwf : WellFormed cfg db) (hb : pkgbase ∈ db.packageBases)
    {r : PackageRequest} (hr : r ∈ db.packageRequests) :
    queried cfg reqType pkgbase r = Open reqType pkgbase r := by
  unfold queried Open
  by_cases hbase : r.packageBaseID = some pkgbase.id
  · obtain ⟨b, hb', hid, hname⟩ := hwf.requestBases r hr pkgbase.id hbase
    rw [hwf.base_eq hb' hb hid] at hname
    rw [hname, Bool.and_true]
  · simp [PackageRequest.concerns, hbase]

theorem mem_toAccept (hwf : WellFormed cfg db) (hb : pkgbase ∈ db.packageBases)
    {r : PackageRequest} : r ∈ toAccept cfg db reqType pkgbase target acceptIDs ↔
      r ∈ db.packageRequests ∧ Open reqType pkgbase r = true ∧
        accepts cfg target acceptIDs r = true := by
  unfold toAccept
  rw [List.mem_filter, List.mem_filter, and_assoc]
  refine and_congr_right fun hr => ?_
  rw [queried_eq_open hwf hb hr]

/-- An open request that is not accepted is rejected. -/
theorem toReject_eq (hwf : WellFormed cfg db) (hb : pkgbase ∈ db.packageBases) :
    toReject cfg db reqType pkgbase
        ((toAccept cfg db reqType pkgbase target acceptIDs).map (·.id)) =
      (db.packageRequests.filter (Open reqType pkgbase)).filter
        fun r => !accepts cfg target acceptIDs r := by
  have hopen : db.packageRequests.filter (queried cfg reqType pkgbase) =
      db.packageRequests.filter (Open reqType pkgbase) :=
    List.filter_congr fun r hr => queried_eq_open hwf hb hr
  unfold toReject
  rw [hopen]
  refine List.filter_congr fun r hr => ?_
  obtain ⟨hr, hopen⟩ := List.mem_filter.mp hr
  refine congrArg (!·) ?_
  rw [Bool.eq_iff_iff, List.contains_iff_mem, List.mem_map]
  constructor
  · rintro ⟨r₀, hr₀, hid⟩
    obtain ⟨hmem, -, haccepts⟩ := (mem_toAccept hwf hb).mp hr₀
    rw [← hwf.requests.eq_of_key hmem hr hid]
    exact haccepts
  · intro haccepts
    exact ⟨r, (mem_toAccept hwf hb).mpr ⟨hr, hopen, haccepts⟩, rfl⟩

theorem toAccept_eq (hwf : WellFormed cfg db) (hb : pkgbase ∈ db.packageBases) :
    toAccept cfg db reqType pkgbase target acceptIDs =
      (db.packageRequests.filter (Open reqType pkgbase)).filter
        (accepts cfg target acceptIDs) := by
  unfold toAccept
  rw [List.filter_congr fun r hr => queried_eq_open hwf hb hr]

/-- The two halves are the open requests. -/
theorem ids_perm (cfg : Config) (target : Option PackageBase) (acceptIDs : Option (List Nat))
    (rows : List PackageRequest) :
    ((rows.filter (accepts cfg target acceptIDs)).map (·.id) ++
      (rows.filter fun r => !accepts cfg target acceptIDs r).map (·.id)).Perm
      (rows.map (·.id)) := by
  rw [← List.map_append]
  exact (List.filter_append_perm _ rows).map _

/-! ### Undisturbed calls -/

theorem mem_closures (hwf : WellFormed cfg db) (hb : pkgbase ∈ db.packageBases)
    {r : PackageRequest} {status : RequestStatus} :
    (r, status) ∈ (toAccept cfg db reqType pkgbase target acceptIDs).map (·, .accepted) ++
        (toReject cfg db reqType pkgbase
          ((toAccept cfg db reqType pkgbase target acceptIDs).map (·.id))).map (·, .rejected) ↔
      r ∈ db.packageRequests ∧ Open reqType pkgbase r = true ∧
        status = verdict cfg target acceptIDs r := by
  rw [toReject_eq hwf hb, toAccept_eq hwf hb]
  simp only [List.mem_append, List.mem_map, List.mem_filter, Prod.mk.injEq, verdict]
  constructor
  · rintro (⟨r, ⟨⟨hr, hopen⟩, haccepts⟩, rfl, rfl⟩ | ⟨r, ⟨⟨hr, hopen⟩, haccepts⟩, rfl, rfl⟩)
    · exact ⟨hr, hopen, (if_pos haccepts).symm⟩
    · refine ⟨hr, hopen, (if_neg ?_).symm⟩
      simpa using haccepts
  · rintro ⟨hr, hopen, rfl⟩
    by_cases haccepts : accepts cfg target acceptIDs r = true
    · exact Or.inl ⟨r, ⟨⟨hr, hopen⟩, haccepts⟩, rfl, (if_pos haccepts).symm⟩
    · refine Or.inr ⟨r, ⟨⟨hr, hopen⟩, by simpa using haccepts⟩, rfl, (if_neg haccepts).symm⟩

/-- Where something matches, what is open is closed. -/
theorem handled_matching (hwf : WellFormed cfg db) (hb : pkgbase ∈ db.packageBases)
    {notifs : List Notification} {db' : Db}
    (hsome : toAccept cfg db reqType pkgbase target acceptIDs ≠ [])
    (h : notifications user
      ((toAccept cfg db reqType pkgbase target acceptIDs).map (·, .accepted) ++
        (toReject cfg db reqType pkgbase
          ((toAccept cfg db reqType pkgbase target acceptIDs).map (·.id))).map (·, .rejected))
      (retryClosures db user pkgbase target
        ((toAccept cfg db reqType pkgbase target acceptIDs).map (·, .accepted) ++
          (toReject cfg db reqType pkgbase
            ((toAccept cfg db reqType pkgbase target acceptIDs).map (·.id))).map
              (·, .rejected)) now) = (.ok notifs, db')) :
    Handled cfg db user reqType pkgbase target comments acceptIDs now notifs db' := by
  obtain ⟨rows, rfl, hrows, hids, hnotified⟩ := notifications_ok hwf.requests.nodup
    (fun c hc => ((mem_closures hwf hb).mp hc).1)
    (fun c hc c' hc' heq => by
      rw [((mem_closures hwf hb).mp hc).2.2, ((mem_closures hwf hb).mp hc').2.2, heq]) h
  refine ⟨rfl, ⟨rows, [], by simp, ?_, fun _ => rfl, ?_, ?_⟩, hnotified⟩
  · refine hrows.imp fun r r' hr => ?_
    obtain ⟨hmem, hclosed, hsame⟩ := hr
    by_cases hopen : Open reqType pkgbase r = true
    · rw [if_pos hopen]
      exact hclosed _ ((mem_closures hwf hb).mpr ⟨hmem, hopen, rfl⟩)
    · rw [if_neg hopen]
      exact hsame fun status hin => hopen ((mem_closures hwf hb).mp hin).2.1
  · intro hnone
    obtain ⟨r, hr⟩ := List.exists_mem_of_ne_nil _ hsome
    obtain ⟨hmem, hopen, haccepts⟩ := (mem_toAccept hwf hb).mp hr
    exact absurd haccepts (hnone r hmem hopen)
  · rw [hids, toReject_eq hwf hb, toAccept_eq hwf hb]
    simpa [Function.comp_def] using ids_perm cfg target acceptIDs
      (db.packageRequests.filter (Open reqType pkgbase))

theorem refresh_of_mem (hnodup : (db.packageRequests.map (·.id)).Nodup) {r : PackageRequest}
    (hr : r ∈ db.packageRequests) : refresh db r = r := by
  unfold refresh
  rw [Table.find?_key hnodup hr]
  rfl

/-- Where nothing matches, a request is created and accepted, and what is open is rejected. -/
theorem handled_recorded (hwf : WellFormed cfg db) (hb : pkgbase ∈ db.packageBases)
    {notifs : List Notification} {db₀ db' : Db}
    (hnone : toAccept cfg db reqType pkgbase target acceptIDs = [])
    (hdb₀ : db₀ = insertRequest db (recorded db user reqType pkgbase target comments now))
    {closures : List Closure}
    (hclosures : closures =
      (refresh db₀ (recorded db user reqType pkgbase target comments now), .accepted) ::
        (toReject cfg db reqType pkgbase []).map fun r => (refresh db₀ r, .rejected))
    (h : notifications user closures (retryClosures db₀ user pkgbase target closures now) =
      (.ok notifs, db')) :
    Handled cfg db user reqType pkgbase target comments acceptIDs now notifs db' := by
  have hfiled : db₀.packageRequests =
      db.packageRequests ++ [recorded db user reqType pkgbase target comments now] := by
    rw [hdb₀]
    rfl
  have hnodup : (db₀.packageRequests.map (·.id)).Nodup := by
    rw [hfiled]
    exact (hwf.requests.insert rfl).nodup
  have hnew : recorded db user reqType pkgbase target comments now ∉ db.packageRequests := by
    intro hin
    exact absurd (hwf.requests.lt _ hin) (Nat.lt_irrefl _)
  have hrejects : toReject cfg db reqType pkgbase [] =
      db.packageRequests.filter (Open reqType pkgbase) := by
    have hall : toReject cfg db reqType pkgbase
        ((toAccept cfg db reqType pkgbase target acceptIDs).map (·.id)) = _ := toReject_eq hwf hb
    have hmiss : toAccept cfg db reqType pkgbase target acceptIDs = _ := toAccept_eq hwf hb
    rw [hnone] at hall hmiss
    rw [List.map_nil] at hall
    rw [hall]
    refine List.filter_eq_self.mpr fun r hr => ?_
    have hrefused := List.filter_eq_nil_iff.mp hmiss.symm r hr
    simpa using hrefused
  have hsimple : closures = (recorded db user reqType pkgbase target comments now, .accepted) ::
      (db.packageRequests.filter (Open reqType pkgbase)).map (·, .rejected) := by
    rw [hclosures, hrejects, refresh_of_mem hnodup (by rw [hfiled]; simp)]
    refine congrArg _ (List.map_congr_left fun r hr => ?_)
    rw [refresh_of_mem hnodup (by rw [hfiled]; simp [(List.mem_filter.mp hr).1])]
  have hmem : ∀ r status, (r, status) ∈ closures ↔
      (r = recorded db user reqType pkgbase target comments now ∧ status = .accepted) ∨
        (r ∈ db.packageRequests ∧ Open reqType pkgbase r = true ∧ status = .rejected) := by
    intro r status
    rw [hsimple, List.mem_cons, List.mem_map, Prod.mk.injEq]
    refine or_congr_right ⟨?_, ?_⟩
    · rintro ⟨r₀, hr₀, heq⟩
      obtain ⟨rfl, rfl⟩ := Prod.mk.inj heq
      exact ⟨(List.mem_filter.mp hr₀).1, (List.mem_filter.mp hr₀).2, rfl⟩
    · rintro ⟨hr, hopen, rfl⟩
      exact ⟨r, List.mem_filter.mpr ⟨hr, hopen⟩, rfl⟩
  obtain ⟨rows, rfl, hrows, hids, hnotified⟩ := notifications_ok hnodup
    (fun c hc => by
      rw [hfiled]
      rcases (hmem c.1 c.2).mp hc with ⟨heq, -⟩ | ⟨hr, -, -⟩
      · simp [heq]
      · simp [hr])
    (fun c hc c' hc' heq => by
      rcases (hmem c.1 c.2).mp hc with ⟨hr, hs⟩ | ⟨hr, -, hs⟩
      · rcases (hmem c'.1 c'.2).mp hc' with ⟨-, hs'⟩ | ⟨hr', -, -⟩
        · rw [hs, hs']
        · exact absurd (hr ▸ heq ▸ hr') hnew
      · rcases (hmem c'.1 c'.2).mp hc' with ⟨hr', -⟩ | ⟨-, -, hs'⟩
        · exact absurd (hr' ▸ heq.symm ▸ hr) hnew
        · rw [hs, hs']) h
  rw [hfiled] at hrows
  obtain ⟨old, new, hold, hcreated, rfl⟩ := Table.forall₂_append hrows
  cases hcreated with
  | cons hr hnil =>
  cases hnil
  rename_i r'
  have hmatches : ∀ r ∈ db.packageRequests, Open reqType pkgbase r →
      ¬accepts cfg target acceptIDs r := by
    intro r hr' hopen haccepts
    have hin := (mem_toAccept hwf hb).mpr ⟨hr', hopen, haccepts⟩
    rw [hnone] at hin
    exact absurd hin List.not_mem_nil
  refine ⟨by rw [hdb₀]; rfl, ⟨old, [r'], rfl, ?_, ?_, fun _ => ⟨r', rfl, ?_⟩, ?_⟩, hnotified⟩
  · refine (Table.forall₂_mem hold).imp fun r r' hr => ?_
    obtain ⟨hin, -, hclosed, hsame⟩ := hr
    by_cases hopen : Open reqType pkgbase r = true
    · rw [if_pos hopen, verdict, if_neg (hmatches r hin hopen)]
      exact hclosed _ ((hmem _ _).mpr (Or.inr ⟨hin, hopen, rfl⟩))
    · rw [if_neg hopen]
      refine hsame fun status hc => ?_
      rcases (hmem r status).mp hc with ⟨heq, -⟩ | ⟨-, hopen', -⟩
      · exact hnew (heq ▸ hin)
      · exact hopen hopen'
  · rintro ⟨r, hr', hopen, haccepts⟩
    exact absurd haccepts (hmatches r hr' hopen)
  · exact hr.2.1 _ ((hmem _ _).mpr (Or.inl ⟨rfl, rfl⟩))
  · have hid : r'.id = (recorded db user reqType pkgbase target comments now).id :=
      (hr.2.1 _ ((hmem _ _).mpr (Or.inl ⟨rfl, rfl⟩))).id
    rw [hids, hsimple, List.map_singleton, hid]
    simpa [Function.comp_def] using (List.perm_append_singleton _ _).symm

/--
**What is open is closed, once each and with one notification.**  For every set of requests,
every type, target and set of ids for which an undisturbed call does not raise: the pending
requests of the type on the base are accepted if they match and rejected if they do not, a
comment they had is kept, one accepted request is created where none matches, and all other
rows are as they were.
-/
theorem handled_of_ok (cfg : Config) (db : Db) (user : User) (reqType : RequestType)
    (pkgbase : PackageBase) (target : Option PackageBase) (comments : String)
    (acceptIDs : Option (List Nat)) (now : Nat) (notifs : List Notification) (db' : Db)
    (hwf : WellFormed cfg db) (hb : pkgbase ∈ db.packageBases)
    (hok : handleRequest cfg db user reqType pkgbase target comments acceptIDs now {} =
      (.ok notifs, db')) :
    Handled cfg db user reqType pkgbase target comments acceptIDs now notifs db' := by
  unfold handleRequest at hok
  split at hok
  · exact absurd (congrArg Prod.fst hok) (by simp)
  by_cases hempty : toAccept cfg db reqType pkgbase target acceptIDs = []
  · simp only [applyAll, List.foldl_nil, hempty, List.isEmpty_nil, if_true] at hok
    split at hok
    · exact absurd (congrArg Prod.fst hok) (by simp)
    · exact handled_recorded hwf hb hempty rfl rfl hok
  · have hsome : (toAccept cfg db reqType pkgbase target acceptIDs).isEmpty = false := by
      simpa using hempty
    simp only [applyAll, List.foldl_nil, hsome, Bool.false_eq_true, if_false] at hok
    exact handled_matching hwf hb hempty hok

/-- `foo` as `smallSite` has it. -/
def foo : PackageBase where
  id := 4
  name := "foo"
  numVotes := 0
  outOfDateTS := some 1
  flaggerComment := "old"
  submittedTS := 1
  modifiedTS := 1
  flaggerUID := some 2
  submitterUID := some 3
  maintainerUID := some 3
  packagerUID := some 3

/-- `carol` asks for `foo` to be given away twice. -/
def askedTwice : Db :=
  Run.exec (Event.apply foo) smallSite
    [.file (account 1 .user "alice") .adoption none "mine" 100,
      .file (account 3 .user "carol") .adoption none "no, mine" 200]

theorem askedTwice_wellFormed : WellFormed siteConfig askedTwice :=
  { smallSite_wellFormed with
    bases := ⟨by decide, by decide⟩
    users := ⟨by decide, by decide⟩
    requests := ⟨by decide, by decide⟩
    requestBases := by decide }

/-- One of two adoption requests is granted. -/
theorem handled_of_ok_foo :
    Handled siteConfig askedTwice (account 2 .packageMaintainer "bob") .adoption foo none ""
      (some [5]) 300 [⟨2, 5, "Accepted"⟩, ⟨2, 6, "Rejected"⟩]
      (handleRequest siteConfig askedTwice (account 2 .packageMaintainer "bob") .adoption foo none
        "" (some [5]) 300 {}).2 :=
  handled_of_ok siteConfig askedTwice _ .adoption foo none "" (some [5]) 300 _ _
    askedTwice_wellFormed (by decide) (Prod.ext (by decide +kernel) rfl)

end Aurweb.HandleRequest
