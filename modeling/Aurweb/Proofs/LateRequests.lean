/-
When closing raises `NotImplementedError`.

There is no text for a deletion or an orphan request that is rejected, and as the site asks
for these two nothing that is open when the first query runs is rejected.  What the second
query finds more has been filed in between.  Its closure comment is empty then, so the factory
is asked for one, unless the session reads the object again before it closes it and somebody
has put a comment there; and it reads its objects again only if it had to create a request.
`Later` is what other users' requests leave of the rows that were there.
-/
import Aurweb.Proofs.HandleRequest

namespace Aurweb.HandleRequest

/-! ### The calls of `aurweb/pkgbase/actions.py` -/

inductive Action
  | delete (comments : String)
  | disown
  | merge (target : PackageBase) (comments : String)
  | adopt (acceptIDs : List Nat)
  deriving DecidableEq, Repr

namespace Action

def reqType : Action → RequestType
  | delete _ => .deletion
  | disown => .orphan
  | merge _ _ => .merge
  | adopt _ => .adoption

def target : Action → Option PackageBase
  | merge target _ => some target
  | _ => none

def comments : Action → String
  | delete comments => comments
  | merge _ comments => comments
  | _ => ""

def acceptIDs : Action → Option (List Nat)
  | adopt ids => some ids
  | _ => none

/-- `handle_request`, as the action calls it. -/
def handle (cfg : Config) (db : Db) (user : User) (a : Action) (pkgbase : PackageBase) (now : Nat)
    (others : Others) : Except Raised (List Notification) × Db :=
  handleRequest cfg db user a.reqType pkgbase a.target a.comments a.acceptIDs now others

end Action

/-! ### The states a call sees -/

/-- What the first query reads. -/
def Others.accepts (others : Others) (pkgbase : PackageBase) (db : Db) : Db :=
  applyAll pkgbase db others.beforeAccepts

/-- What the second query reads. -/
def Others.rejects (others : Others) (pkgbase : PackageBase) (db : Db) : Db :=
  applyAll pkgbase (others.accepts pkgbase db) others.beforeRejects

/-- What is there by the time a request is created, if one is. -/
def Others.creation (others : Others) (pkgbase : PackageBase) (db : Db) : Db :=
  applyAll pkgbase (others.rejects pkgbase db) others.beforeCreation

/-- What the closures find after that. -/
def Others.closures (others : Others) (user : User) (a : Action) (pkgbase : PackageBase)
    (now : Nat) (db : Db) : Db :=
  let db := others.creation pkgbase db
  applyAll pkgbase
    (insertRequest db (recorded db user a.reqType pkgbase a.target a.comments now))
    others.beforeClosures

/-- A request of the type is filed after the first query and open at the second; if the first
has found nothing, it still has no closure comment at the end. -/
def Overtaken (cfg : Config) (db : Db) (user : User) (a : Action) (pkgbase : PackageBase)
    (now : Nat) (others : Others) : Prop :=
  ∃ r ∈ (others.rejects pkgbase db).packageRequests,
    queried cfg a.reqType pkgbase r = true ∧
    (∀ r₁ ∈ (others.accepts pkgbase db).packageRequests,
      queried cfg a.reqType pkgbase r₁ = true → r₁.id ≠ r.id) ∧
    ((∀ r₁ ∈ (others.accepts pkgbase db).packageRequests,
        queried cfg a.reqType pkgbase r₁ = false) →
      (refresh (others.closures user a pkgbase now db) r).closureComment = "")

/-- The action is a deletion, or a disowning that is due, and a request has come in late. -/
def Stranded (cfg : Config) (db : Db) (user : User) (a : Action) (pkgbase : PackageBase)
    (now : Nat) (others : Others) : Prop :=
  (a.reqType = .deletion ∨
    a.reqType = .orphan ∧ verifyOrphanRequest cfg db pkgbase now = true) ∧
    Overtaken cfg db user a pkgbase now others

instance (cfg : Config) (db : Db) (user : User) (a : Action) (pkgbase : PackageBase) (now : Nat)
    (others : Others) : Decidable (Overtaken cfg db user a pkgbase now others) :=
  inferInstanceAs (Decidable (∃ r ∈ _, _ ∧ (∀ r₁ ∈ _, _) ∧ ((∀ r₁ ∈ _, _) → _)))

instance (cfg : Config) (db : Db) (user : User) (a : Action) (pkgbase : PackageBase) (now : Nat)
    (others : Others) : Decidable (Stranded cfg db user a pkgbase now others) :=
  inferInstanceAs (Decidable ((_ ∨ _ ∧ _) ∧ Overtaken cfg db user a pkgbase now others))

variable {cfg : Config} {db db' : Db} {user : User} {pkgbase : PackageBase}
  {target : Option PackageBase} {now : Nat}

/-! ### What other users leave -/

/-- Requests keep their ids and types, and ids stay unique. -/
structure Later (db db' : Db) : Prop where
  numbered : Table.Numbered (·.id) db.nextID db.packageRequests →
    Table.Numbered (·.id) db'.nextID db'.packageRequests
  kept : ∀ r ∈ db.packageRequests, ∃ r' ∈ db'.packageRequests,
    r'.id = r.id ∧ r'.reqType = r.reqType

theorem Later.refl (db : Db) : Later db db where
  numbered h := h
  kept r hr := ⟨r, hr, rfl, rfl⟩

theorem Later.trans {db'' : Db} (h : Later db db') (h' : Later db' db'') : Later db db'' where
  numbered hdb := h'.numbered (h.numbered hdb)
  kept r hr := by
    obtain ⟨r', hr', hid, htype⟩ := h.kept r hr
    obtain ⟨r'', hr'', hid', htype'⟩ := h'.kept r' hr'
    exact ⟨r'', hr'', hid'.trans hid, htype'.trans htype⟩

theorem later_insertRequest (db : Db) (r : PackageRequest) : Later db (insertRequest db r) where
  numbered h := h.insert rfl
  kept r hr := ⟨r, List.mem_append_left _ hr, rfl, rfl⟩

/-- Closing a request writes its row, and that row alone. -/
theorem requestClosePost_cases (db : Db) (user : User) (id : Nat) (comments : String)
    (now : Nat) :
    (requestClosePost db user id comments now).2 = db ∨
      (requestClosePost db user id comments now).2 = updateRequests db (·.id == id) fun r =>
        { r with
          closedUID := some user.id, closureComment := comments, closedTS := some now
          status := .rejected } := by
  unfold requestClosePost
  split
  · exact Or.inl rfl
  split
  · exact Or.inl rfl
  · exact Or.inr rfl

theorem Event.later (db : Db) (e : Event) : Later db (e.apply pkgbase db) := by
  cases e with
  | file user reqType mergeInto comments now => exact later_insertRequest db _
  | close user id comments now =>
      unfold Event.apply
      rcases requestClosePost_cases db user id comments now with heq | heq
      · simp only [heq]
        exact .refl db
      · simp only [heq]
        refine ⟨fun h => h.of_map_eq (by apply Table.map_update; intro r; rfl), fun r hr => ?_⟩
        refine ⟨_, Table.mem_update.mpr ⟨r, hr, rfl⟩, ?_⟩
        split <;> exact ⟨rfl, rfl⟩

theorem applyAll_later (pkgbase : PackageBase) (db : Db) (events : List Event) :
    Later db (applyAll pkgbase db events) := by
  induction events generalizing db with
  | nil => exact .refl db
  | cons e events ih => exact (e.later db).trans (ih (e.apply pkgbase db))

/-- A request that is open was open before, or has been filed and has no closure comment. -/
theorem Event.open {r : PackageRequest} (e : Event)
    (hr : r ∈ (e.apply pkgbase db).packageRequests) (hpending : r.status = .pending) :
    r ∈ db.packageRequests ∨ r.closureComment = "" := by
  cases e with
  | file user reqType mergeInto comments now =>
      refine (mem_insertRequest hr).imp_right fun heq => ?_
      rw [heq]
      rfl
  | close user id comments now =>
      unfold Event.apply at hr
      rcases requestClosePost_cases db user id comments now with heq | heq
      · simp only [heq] at hr
        exact Or.inl hr
      · simp only [heq] at hr
        obtain ⟨r₀, hr₀, rfl⟩ := Table.mem_update.mp hr
        split at hpending
        · exact absurd hpending (by simp)
        · rename_i hother
          rw [if_neg hother]
          exact Or.inl hr₀

theorem applyAll_open {r : PackageRequest} (events : List Event)
    (hr : r ∈ (applyAll pkgbase db events).packageRequests) (hpending : r.status = .pending) :
    r ∈ db.packageRequests ∨ r.closureComment = "" := by
  induction events generalizing db with
  | nil => exact Or.inl hr
  | cons e events ih =>
      rcases ih hr with hr | hcomment
      · exact e.open hr hpending
      · exact Or.inr hcomment

/-! ### The factory -/

/-- The object is to be closed in a way there is no text for, and has none. -/
def Unsupported (c : Closure) : Prop :=
  (c.1.reqType = .deletion ∨ c.1.reqType = .orphan) ∧ c.2 = .rejected ∧
    c.1.closureComment = ""

theorem map_error_iff {α β ε : Type} {f : α → β} {x : Except ε α} {e : ε} :
    x.map f = .error e ↔ x = .error e := by
  cases x <;> simp [Except.map]

theorem getClosure_error_iff {reqType : RequestType} {status : RequestStatus} {e : Raised}
    (htarget : reqType = .merge → target.isSome = true) :
    getClosure reqType pkgbase target status = .error e ↔
      (reqType = .deletion ∨ reqType = .orphan) ∧ status = .rejected ∧
        e = .other "NotImplementedError" := by
  by_cases hstatus : status = .rejected
  · cases reqType with
    | deletion => simp [getClosure, hstatus, eq_comm]
    | orphan => simp [getClosure, hstatus, eq_comm]
    | adoption => simp [getClosure, hstatus]
    | merge =>
        obtain ⟨t, rfl⟩ := Option.isSome_iff_exists.mp (htarget rfl)
        simp [getClosure, hstatus]
  · cases reqType with
    | merge =>
        obtain ⟨t, rfl⟩ := Option.isSome_iff_exists.mp (htarget rfl)
        simp [getClosure, hstatus]
    | _ => simp [getClosure, hstatus]

theorem closeRow_error_iff {c : Closure} {r : PackageRequest} {e : Raised}
    (htarget : c.1.reqType = .merge → target.isSome = true) :
    closeRow user pkgbase target now c r = .error e ↔
      Unsupported c ∧ e = .other "NotImplementedError" := by
  unfold closeRow closePkgreq Unsupported
  rw [map_error_iff, map_error_iff]
  by_cases hcomment : c.1.closureComment = ""
  · rw [if_pos hcomment, getClosure_error_iff htarget]
    tauto
  · simp [hcomment]

/-- Closing raises `NotImplementedError` if the text for one of the objects is missing. -/
theorem retryClosures_error_iff {closures : List Closure} {e : Raised}
    (hnodup : (closures.map (·.1.id)).Nodup)
    (hrows : ∀ c ∈ closures, ∃ r ∈ db.packageRequests, r.id = c.1.id)
    (htarget : ∀ c ∈ closures, c.1.reqType = .merge → target.isSome = true) :
    (retryClosures db user pkgbase target closures now).1 = .error e ↔
      (∃ c ∈ closures, Unsupported c) ∧ e = .other "NotImplementedError" := by
  have hraised : ∀ e', (retryClosures db user pkgbase target closures now).1 = .error e' →
      (∃ c ∈ closures, Unsupported c) ∧ e' = .other "NotImplementedError" := by
    intro e' h
    unfold retryClosures at h
    split at h
    · rename_i e₀ hclose
      obtain rfl := Except.error.inj h
      obtain ⟨r, -, hr⟩ := Table.exists_of_mapM_error hclose
      cases hfind : closures.find? (·.1.id == r.id) with
      | none =>
          rw [hfind] at hr
          exact absurd hr (by simp)
      | some c =>
          rw [hfind] at hr
          have hc := List.mem_of_find?_eq_some hfind
          obtain ⟨hc', he⟩ := (closeRow_error_iff (htarget c hc)).mp hr
          exact ⟨⟨c, hc, hc'⟩, he⟩
    · exact absurd h (by simp [done])
  refine ⟨hraised e, ?_⟩
  rintro ⟨⟨c, hc, hunsupported⟩, rfl⟩
  -- If every row could be closed, so could the one of `c`.
  cases h : (retryClosures db user pkgbase target closures now).1 with
  | error e' => rw [(hraised e' h).2]
  | ok u =>
      exfalso
      unfold retryClosures at h
      split at h
      · exact absurd h (by simp)
      rename_i rows hclose
      obtain ⟨r, hr, hid⟩ := hrows c hc
      obtain ⟨r', -, -, hr'⟩ :=
        Table.exists_of_forall₂_left (Table.forall₂_of_mapM hclose) hr
      have hfind : closures.find? (·.1.id == r.id) = some c := by
        rw [hid]
        exact Table.find?_key hnodup hc
      simp only [hfind] at hr'
      rw [(closeRow_error_iff (htarget c hc)).mpr ⟨hunsupported, rfl⟩] at hr'
      exact absurd hr' (by simp)

theorem notifications_error_iff {closures : List Closure} {o : Outcome} {e : Raised} :
    (notifications user closures o).1 = .error e ↔ o.1 = .error e := by
  obtain ⟨result, db⟩ := o
  cases result with
  | error e' => simp [notifications]
  | ok u => simp [notifications]

/-! ### Reading objects again -/

/-- The object is its row. -/
theorem refresh_mem {r : PackageRequest} (h : ∃ r' ∈ db.packageRequests, r'.id = r.id) :
    refresh db r ∈ db.packageRequests ∧ (refresh db r).id = r.id := by
  unfold refresh
  cases hfind : db.packageRequests.find? (·.id == r.id) with
  | none =>
      obtain ⟨r', hr', hid⟩ := h
      exact absurd (by simpa using hid) (List.find?_eq_none.mp hfind r' hr')
  | some r' =>
      exact ⟨List.mem_of_find?_eq_some hfind, by simpa using List.find?_some hfind⟩

/-- A request that was there before has kept its type. -/
theorem Later.refresh {db₀ : Db} (h : Later db₀ db)
    (hnumbered : Table.Numbered (·.id) db₀.nextID db₀.packageRequests) {r : PackageRequest}
    (hr : r ∈ db₀.packageRequests) :
    refresh db r ∈ db.packageRequests ∧ (refresh db r).id = r.id ∧
      (refresh db r).reqType = r.reqType := by
  obtain ⟨r', hr', hid, htype⟩ := h.kept r hr
  obtain ⟨hmem, hid'⟩ := refresh_mem ⟨r', hr', hid⟩
  refine ⟨hmem, hid', ?_⟩
  rw [(h.numbered hnumbered).eq_of_key hmem hr' (hid'.trans hid.symm), htype]

/-! ### What the second query finds more -/

variable {a : Action} {others : Others}

/-- A deletion or a disowning accepts all that it finds. -/
theorem toAccept_all (h : a.reqType = .deletion ∨ a.reqType = .orphan) :
    toAccept cfg db a.reqType pkgbase a.target a.acceptIDs =
      db.packageRequests.filter (queried cfg a.reqType pkgbase) := by
  unfold toAccept
  refine List.filter_eq_self.mpr fun r _ => ?_
  cases a with
  | delete comments => rfl
  | disown => rfl
  | merge target comments => exact absurd h (by simp [Action.reqType])
  | adopt acceptIDs => exact absurd h (by simp [Action.reqType])

theorem mem_toReject {reqType : RequestType} {ids : List Nat} {r : PackageRequest} :
    r ∈ toReject cfg db reqType pkgbase ids ↔
      r ∈ db.packageRequests ∧ queried cfg reqType pkgbase r = true ∧ r.id ∉ ids := by
  unfold toReject
  rw [List.mem_filter, List.mem_filter, and_assoc]
  simp

theorem Action.target_isSome (a : Action) (h : a.reqType = .merge) : a.target.isSome = true := by
  cases a with
  | merge target comments => rfl
  | delete comments => exact absurd h (by simp [Action.reqType])
  | disown => exact absurd h (by simp [Action.reqType])
  | adopt acceptIDs => exact absurd h (by simp [Action.reqType])

theorem unsupported_accepted {r : PackageRequest} : ¬Unsupported (r, .accepted) := by
  simp [Unsupported]

/-- With something accepted, the objects are closed as the queries have read them. -/
theorem matching_error_iff {db₁ db₂ : Db} {e : Raised}
    (hnumbered : Table.Numbered (·.id) db₁.nextID db₁.packageRequests)
    (h : Later db₁ db₂) (h' : Later db₂ db)
    {accepted rejected : List PackageRequest}
    (haccepted : accepted = toAccept cfg db₁ a.reqType pkgbase a.target a.acceptIDs)
    (hrejected : rejected = toReject cfg db₂ a.reqType pkgbase (accepted.map (·.id))) :
    (retryClosures db user pkgbase a.target
      (accepted.map (·, .accepted) ++ rejected.map (·, .rejected)) now).1 = .error e ↔
      (∃ r ∈ rejected, Unsupported (r, .rejected)) ∧ e = .other "NotImplementedError" := by
  have hin : ∀ r ∈ accepted, r ∈ db₁.packageRequests ∧
      queried cfg a.reqType pkgbase r = true := by
    intro r hr
    rw [haccepted] at hr
    exact List.mem_filter.mp (List.mem_filter.mp hr).1
  have hin' : ∀ r ∈ rejected, r ∈ db₂.packageRequests ∧
      queried cfg a.reqType pkgbase r = true ∧ r.id ∉ accepted.map (·.id) := by
    intro r hr
    rw [hrejected] at hr
    exact mem_toReject.mp hr
  have hnodup : (accepted.map (·.id)).Nodup := by
    rw [haccepted]
    exact hnumbered.nodup.sublist
      ((List.filter_sublist.trans List.filter_sublist).map _)
  have hnodup' : (rejected.map (·.id)).Nodup := by
    rw [hrejected]
    exact (h.numbered hnumbered).nodup.sublist
      ((List.filter_sublist.trans List.filter_sublist).map _)
  have hmem : ∀ c ∈ accepted.map (·, RequestStatus.accepted) ++
      rejected.map (·, RequestStatus.rejected), queried cfg a.reqType pkgbase c.1 = true ∧
        ∃ r ∈ db.packageRequests, r.id = c.1.id := by
    intro c hc
    rcases List.mem_append.mp hc with hc | hc
    · obtain ⟨r, hr, rfl⟩ := List.mem_map.mp hc
      obtain ⟨r', hr', hid, -⟩ := (h.trans h').kept r (hin r hr).1
      exact ⟨(hin r hr).2, r', hr', hid⟩
    · obtain ⟨r, hr, rfl⟩ := List.mem_map.mp hc
      obtain ⟨r', hr', hid, -⟩ := h'.kept r (hin' r hr).1
      exact ⟨(hin' r hr).2.1, r', hr', hid⟩
  rw [retryClosures_error_iff ?_ (fun c hc => (hmem c hc).2) ?_]
  · refine and_congr_left fun _ => ?_
    simp only [List.mem_append, List.mem_map]
    constructor
    · rintro ⟨c, ⟨r, hr, rfl⟩ | ⟨r, hr, rfl⟩, hc⟩
      · exact absurd hc unsupported_accepted
      · exact ⟨r, hr, hc⟩
    · rintro ⟨r, hr, hc⟩
      exact ⟨_, Or.inr ⟨r, hr, rfl⟩, hc⟩
  · simp only [List.map_append, List.map_map, Function.comp_def]
    refine List.nodup_append.mpr ⟨hnodup, hnodup', ?_⟩
    rintro i hi j hj rfl
    obtain ⟨r, hr, rfl⟩ := List.mem_map.mp hj
    exact (hin' r hr).2.2 hi
  · intro c hc htype
    exact a.target_isSome ((queried_pending (hmem c hc).1).2.1.symm.trans htype)

/-- With nothing accepted, they are read again. -/
theorem recorded_error_iff {db₂ db₃ : Db} {e : Raised}
    (hnumbered : Table.Numbered (·.id) db₂.nextID db₂.packageRequests)
    (h : Later db₂ db₃) {created : PackageRequest} (hcreated : created.id = db₃.nextID)
    (htype : created.reqType = a.reqType) (h' : Later (insertRequest db₃ created) db)
    {rejected : List PackageRequest} {ids : List Nat}
    (hrejected : rejected = toReject cfg db₂ a.reqType pkgbase ids) :
    (retryClosures db user pkgbase a.target
      ((refresh db created, .accepted) :: rejected.map (refresh db ·, .rejected)) now).1 =
        .error e ↔
      (∃ r ∈ rejected, Unsupported (refresh db r, .rejected)) ∧
        e = .other "NotImplementedError" := by
  have hlater := (h.trans (later_insertRequest db₃ created)).trans h'
  have hread : ∀ r ∈ rejected, refresh db r ∈ db.packageRequests ∧
      (refresh db r).id = r.id ∧ (refresh db r).reqType = r.reqType := by
    intro r hr
    rw [hrejected] at hr
    exact hlater.refresh hnumbered (mem_toReject.mp hr).1
  have hfiled : created ∈ (insertRequest db₃ created).packageRequests := by
    unfold insertRequest
    rw [← hcreated]
    simp
  obtain ⟨hnew, hnewid, hnewtype⟩ :=
    h'.refresh ((later_insertRequest db₃ created).numbered (h.numbered hnumbered)) hfiled
  have hnodup : (rejected.map (·.id)).Nodup := by
    rw [hrejected]
    exact hnumbered.nodup.sublist ((List.filter_sublist.trans List.filter_sublist).map _)
  have hfresh : created.id ∉ rejected.map (·.id) := by
    intro hin
    obtain ⟨r, hr, hid⟩ := List.mem_map.mp hin
    rw [hrejected] at hr
    obtain ⟨r', hr', hid', -⟩ := h.kept r (mem_toReject.mp hr).1
    have hlt := (h.numbered hnumbered).lt r' hr'
    omega
  rw [retryClosures_error_iff]
  · refine and_congr_left fun _ => ?_
    simp only [List.mem_cons, List.mem_map]
    constructor
    · rintro ⟨c, rfl | ⟨r, hr, rfl⟩, hc⟩
      · exact absurd hc unsupported_accepted
      · exact ⟨r, hr, hc⟩
    · rintro ⟨r, hr, hc⟩
      exact ⟨_, Or.inr ⟨r, hr, rfl⟩, hc⟩
  · simp only [List.map_cons, List.map_map, Function.comp_def, List.nodup_cons]
    rw [hnewid, List.map_congr_left fun r hr => (hread r hr).2.1]
    exact ⟨hfresh, hnodup⟩
  · intro c hc
    rcases List.mem_cons.mp hc with rfl | hc
    · exact ⟨_, hnew, rfl⟩
    · obtain ⟨r, hr, rfl⟩ := List.mem_map.mp hc
      exact ⟨_, (hread r hr).1, rfl⟩
  · intro c hc hmerge
    rcases List.mem_cons.mp hc with rfl | hc
    · exact a.target_isSome (htype.symm.trans (hnewtype.symm.trans hmerge))
    · obtain ⟨r, hr, rfl⟩ := List.mem_map.mp hc
      have hqueried := hr
      rw [hrejected] at hqueried
      have hsame := (queried_pending (mem_toReject.mp hqueried).2.1).2.1
      exact a.target_isSome (hsame.symm.trans ((hread r hr).2.2.symm.trans hmerge))

/-! ### Calls -/

/-- The types there is no text for, where the function does not raise `InvariantError`. -/
theorem due_of_type
    (hdue : ¬(a.reqType = .orphan ∧ verifyOrphanRequest cfg db pkgbase now = false))
    (h : a.reqType = .deletion ∨ a.reqType = .orphan) :
    a.reqType = .deletion ∨
      a.reqType = .orphan ∧ verifyOrphanRequest cfg db pkgbase now = true := by
  refine h.imp_right fun horphan => ⟨horphan, ?_⟩
  by_contra hnot
  exact hdue ⟨horphan, by simpa using hnot⟩

/-- What is rejected without a comment has been filed since the first query. -/
theorem stranded_of_rejected
    (hdue : ¬(a.reqType = .orphan ∧ verifyOrphanRequest cfg db pkgbase now = false))
    (hsome :
      toAccept cfg (others.accepts pkgbase db) a.reqType pkgbase a.target a.acceptIDs ≠ []) :
    (∃ r ∈ toReject cfg (others.rejects pkgbase db) a.reqType pkgbase
        ((toAccept cfg (others.accepts pkgbase db) a.reqType pkgbase a.target a.acceptIDs).map
          (·.id)), Unsupported (r, .rejected)) ↔
      Stranded cfg db user a pkgbase now others := by
  constructor
  · rintro ⟨r, hr, htype, -, hcomment⟩
    obtain ⟨hmem, hqueried, hlate⟩ := mem_toReject.mp hr
    rw [(queried_pending hqueried).2.1] at htype
    rw [toAccept_all htype] at hlate hsome
    refine ⟨due_of_type hdue htype, r, hmem, hqueried, fun r₁ hr₁ hq hid => hlate ?_,
      fun hnone => ?_⟩
    · exact List.mem_map.mpr ⟨r₁, List.mem_filter.mpr ⟨hr₁, hq⟩, hid⟩
    · refine absurd (List.filter_eq_nil_iff.mpr fun r₁ hr₁ => ?_) hsome
      simp [hnone r₁ hr₁]
  · rintro ⟨htype, r, hmem, hqueried, hlate, -⟩
    have htype : a.reqType = .deletion ∨ a.reqType = .orphan := htype.imp_right And.left
    have hopen := queried_pending hqueried
    rw [toAccept_all htype]
    refine ⟨r, mem_toReject.mpr ⟨hmem, hqueried, fun hin => ?_⟩, ?_, rfl, ?_⟩
    · obtain ⟨r₁, hr₁, hid⟩ := List.mem_map.mp hin
      obtain ⟨hr₁, hq⟩ := List.mem_filter.mp hr₁
      exact hlate r₁ hr₁ hq hid
    · show r.reqType = .deletion ∨ r.reqType = .orphan
      rw [hopen.2.1]
      exact htype
    · rcases applyAll_open others.beforeRejects hmem hopen.1 with hold | hcomment
      · exact absurd rfl (hlate r hold hqueried)
      · exact hcomment

/-- The same where the first query has found nothing. -/
theorem stranded_of_recorded
    (hdue : ¬(a.reqType = .orphan ∧ verifyOrphanRequest cfg db pkgbase now = false))
    (hnumbered : Table.Numbered (·.id) db.nextID db.packageRequests)
    (hnone :
      toAccept cfg (others.accepts pkgbase db) a.reqType pkgbase a.target a.acceptIDs = []) :
    (∃ r ∈ toReject cfg (others.rejects pkgbase db) a.reqType pkgbase [],
        Unsupported (refresh (others.closures user a pkgbase now db) r, .rejected)) ↔
      Stranded cfg db user a pkgbase now others := by
  have hlater : Later (others.rejects pkgbase db) (others.closures user a pkgbase now db) :=
    ((applyAll_later pkgbase _ others.beforeCreation).trans (later_insertRequest _ _)).trans
      (applyAll_later pkgbase _ others.beforeClosures)
  have hrejects : Table.Numbered (·.id) (others.rejects pkgbase db).nextID
      (others.rejects pkgbase db).packageRequests :=
    (applyAll_later pkgbase _ others.beforeRejects).numbered
      ((applyAll_later pkgbase db others.beforeAccepts).numbered hnumbered)
  constructor
  · rintro ⟨r, hr, htype, -, hcomment⟩
    obtain ⟨hmem, hqueried, -⟩ := mem_toReject.mp hr
    rw [(hlater.refresh hrejects hmem).2.2, (queried_pending hqueried).2.1] at htype
    rw [toAccept_all htype, List.filter_eq_nil_iff] at hnone
    exact ⟨due_of_type hdue htype, r, hmem, hqueried,
      fun r₁ hr₁ hq => absurd hq (hnone r₁ hr₁), fun _ => hcomment⟩
  · rintro ⟨htype, r, hmem, hqueried, -, hcomment⟩
    have htype : a.reqType = .deletion ∨ a.reqType = .orphan := htype.imp_right And.left
    rw [toAccept_all htype, List.filter_eq_nil_iff] at hnone
    refine ⟨r, mem_toReject.mpr ⟨hmem, hqueried, List.not_mem_nil⟩, ?_, rfl, ?_⟩
    · show (refresh _ r).reqType = .deletion ∨ (refresh _ r).reqType = .orphan
      rw [(hlater.refresh hrejects hmem).2.2, (queried_pending hqueried).2.1]
      exact htype
    · exact hcomment fun r₁ hr₁ => by simpa using hnone r₁ hr₁

/--
**The factory is asked for a text it does not have when a request comes in late.**  For every
set of requests, every action and everything that other users do in between, the call ends in
`NotImplementedError` if and only if it is a deletion, or a disowning that is due, and a
request of its type has been filed on the base after the first query and is open at the
second; where the first query finds nothing the objects are read again, and then it must still
be without a closure comment at the end.
-/
theorem handle_notImplemented_iff (cfg : Config) (db : Db) (user : User) (a : Action)
    (pkgbase : PackageBase) (now : Nat) (others : Others)
    (hnumbered : Table.Numbered (·.id) db.nextID db.packageRequests) :
    (a.handle cfg db user pkgbase now others).1 ≠ .error (.other "NotImplementedError") ↔
      ¬Stranded cfg db user a pkgbase now others := by
  refine not_congr ?_
  unfold Action.handle handleRequest
  by_cases hdue : a.reqType = .orphan ∧ verifyOrphanRequest cfg db pkgbase now = false
  · rw [if_pos hdue]
    constructor
    · intro h
      exact absurd h (by simp)
    · rintro ⟨hdeletion | ⟨-, hverified⟩, -⟩
      · exact absurd (hdeletion.symm.trans hdue.1) (by simp)
      · exact absurd (hverified.symm.trans hdue.2) (by simp)
  rw [if_neg hdue]
  have haccepts := applyAll_later pkgbase db others.beforeAccepts
  have hrejects := applyAll_later pkgbase (others.accepts pkgbase db) others.beforeRejects
  have hcreation := applyAll_later pkgbase (others.rejects pkgbase db) others.beforeCreation
  by_cases hnone :
      toAccept cfg (others.accepts pkgbase db) a.reqType pkgbase a.target a.acceptIDs = []
  · have hmerge : ¬(a.reqType = .merge ∧ a.target.isNone = true) := by
      rintro ⟨htype, htarget⟩
      have hsome := a.target_isSome htype
      simp [Option.isNone_iff_eq_none.mp htarget] at hsome
    have hempty : toAccept cfg (applyAll pkgbase db others.beforeAccepts) a.reqType pkgbase
        a.target a.acceptIDs = [] := hnone
    simp only [hempty, List.isEmpty_nil, if_true, if_neg hmerge, List.map_nil]
    refine notifications_error_iff.trans ((recorded_error_iff
      (hrejects.numbered (haccepts.numbered hnumbered)) hcreation rfl rfl
      (applyAll_later pkgbase _ others.beforeClosures) rfl).trans ?_)
    rw [and_iff_left rfl]
    exact stranded_of_recorded hdue hnumbered hnone
  · have hsome : (toAccept cfg (applyAll pkgbase db others.beforeAccepts) a.reqType pkgbase
        a.target a.acceptIDs).isEmpty = false := by
      rw [← Bool.not_eq_true, List.isEmpty_iff]
      exact hnone
    simp only [hsome, Bool.false_eq_true, if_false]
    refine notifications_error_iff.trans ((matching_error_iff (haccepts.numbered hnumbered)
      hrejects (hcreation.trans (applyAll_later pkgbase _ others.beforeClosures)) rfl rfl).trans ?_)
    rw [and_iff_left rfl]
    exact stranded_of_rejected hdue hnone

/-- `bob` deletes `foo`; `alice` has asked for that before his first query. -/
theorem handle_notImplemented_iff_early :
    ((Action.delete "").handle siteConfig askedTwice (account 2 .packageMaintainer "bob") foo 300
      { beforeAccepts := [.file (account 1 .user "alice") .deletion none "broken" 290] }).1 ≠
        .error (.other "NotImplementedError") :=
  (handle_notImplemented_iff siteConfig askedTwice _ _ foo 300 _
    askedTwice_wellFormed.requests).mpr (by decide +kernel)

/-- `alice` asks for it between his two queries. -/
theorem handle_notImplemented_late :
    ((Action.delete "").handle siteConfig askedTwice (account 2 .packageMaintainer "bob") foo 300
      { beforeRejects := [.file (account 1 .user "alice") .deletion none "broken" 290] }).1 =
        .error (.other "NotImplementedError") := by
  decide +kernel

end Aurweb.HandleRequest
