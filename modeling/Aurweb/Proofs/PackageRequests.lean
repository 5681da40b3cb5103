/-
What becomes of a request.

Over a run a request is filed pending, closed once, and may lose its base, its author and
its closer to deletions.  `Write.requests` lists what a write can do to the table, and the
three results read off it what a run can do.

  * A request is open to those who test `Status` and to those who test `ClosedTS` at the
    same time, except for orphan requests that are granted as they are filed.
  * A request that was decided stays as it was, except that the close page asks nobody
    whether it still is pending.
  * A pending request has a base, unless the base went while a request of another type
    than the action's was pending on it.
-/
import Aurweb.Proofs.SiteWrites

namespace Aurweb

/-! ### The table of requests -/

/-- What a write does to a request. -/
inductive Touched (may : May) (r : PackageRequest) : PackageRequest → Prop
  | settled {r' : PackageRequest} (h : Settles r r') : Touched may r r'
  | reclosed {r' : PackageRequest} (hmay : may.reclose) (h : Closes r r') : Touched may r r'
  | accepted (hmay : may.accept) (hpending : r.status = .pending) :
      Touched may r { r with status := .accepted }
  | adrift (h : may.desert ∨ r.status ≠ .pending) :
      Touched may r { r with packageBaseID := none }
  | forgotten {uid : Nat} (hmay : may.remove uid) :
      Touched may r
        { r with usersID := Db.setNull uid r.usersID, closedUID := Db.setNull uid r.closedUID }

/-- A request that has just been filed. -/
def FiledIn (cfg : Config) (db : Db) (r' : PackageRequest) : Prop :=
  ∃ r, Filed cfg db r ∧ r' = { r with id := db.nextID }

section

variable {cfg : Config} {may : May} {db db' : Db}

theorem Touched.same (r : PackageRequest) : Touched may r r := .settled (Settles.refl r)

/-- The hook leaves the tables alone that it does not know. -/
theorem keptBy_requests (p : GitUpdate.Push) (rows : List PackageRequest) :
    GitUpdate.KeptBy cfg p fun db => db.packageRequests = rows where
  stores hs h := by cases hs <;> exact h
  clear _ h := h
  notify h := h
  touch _ _ _ h := h
  takeOver _ _ _ _ h := h
  create _ _ h _ _ _ _ _ := h

theorem adrift_deletePackageBase {id : Nat}
    (hdesert : may.desert ∨ ∀ r ∈ db.packageRequests, r.packageBaseID = some id →
      r.status ≠ .pending) :
    List.Forall₂ (Touched may) db.packageRequests (db.deletePackageBase id).packageRequests := by
  refine Table.forall₂_update Touched.same fun r hr hbase => ?_
  have hid : r.packageBaseID = some id := by simpa using hbase
  exact .adrift (hdesert.imp (fun h => h) fun h => h r hr hid)

/-- A write files a request, or touches those that are there. -/
theorem Write.requests_cases (hw : Write cfg may db db') :
    (∃ r, Filed cfg db r ∧ db' = insertRequest db r) ∨
      List.Forall₂ (Touched may) db.packageRequests db'.packageRequests := by
  have hsame : List.Forall₂ (Touched may) db.packageRequests db.packageRequests :=
    Table.forall₂_refl Touched.same _
  cases hw with
  | file hfiled => exact Or.inl ⟨_, hfiled, rfl⟩
  | settle hrows => exact Or.inr (hrows.imp fun _ _ h => .settled h)
  | reclose hmay hf =>
      exact Or.inr (Table.forall₂_update Touched.same fun r _ _ => .reclosed hmay (hf r))
  | accept hmay hpending =>
      refine Or.inr (Table.forall₂_update Touched.same fun r hr hid => ?_)
      exact .accepted hmay (hpending r hr (by simpa using hid))
  | delete _ hdesert => exact Or.inr (adrift_deletePackageBase hdesert)
  | @merge pkgbase target _ _ _ hdesert =>
      have hmoved : ∀ db' : Db, db'.packageRequests = db.packageRequests →
          List.Forall₂ (Touched may) db.packageRequests
            (db'.deletePackageBase pkgbase.id).packageRequests := by
        intro db' hrequests
        rw [← hrequests] at hdesert ⊢
        exact adrift_deletePackageBase hdesert
      exact Or.inr (hmoved _ rfl)
  | account hmay =>
      right
      unfold Db.deleteUser
      rw [List.forall₂_map_right_iff]
      exact List.forall₂_same.mpr fun r _ => .forgotten hmay
  | side _ _ hrequests =>
      rw [hrequests]
      exact Or.inr hsame
  | push =>
      rw [run_of_keptBy (P := fun db' => db'.packageRequests = db.packageRequests)
        (keptBy_requests _ _) _ rfl]
      exact Or.inr hsame
  | _ => exact Or.inr hsame

/-- **What a write does to the requests.** -/
theorem Write.requests (hw : Write cfg may db db') :
    Table.Grows (Touched may) (FiledIn cfg db) db.packageRequests db'.packageRequests := by
  rcases hw.requests_cases with ⟨r, hfiled, rfl⟩ | hrows
  · exact Table.Grows.insert Touched.same ⟨r, hfiled, rfl⟩
  · exact ⟨_, [], hrows, by simp, by simp⟩

end

/-! ### Open to all readers, or to none -/

/-- `Status` and `ClosedTS` are written together. -/
def ClosedTogether (db : Db) : Prop :=
  ∀ r ∈ db.packageRequests, r.status ≠ .pending ↔ r.closedTS ≠ none

/-- Whichever column a reader tests, it finds the same requests open. -/
structure ReadersAgree (db : Db) : Prop where
  page : ∀ r ∈ db.packageRequests, (r.status == .pending) = r.offersClose
  statistics : pendingRequests db = db.packageRequests.countP (·.offersClose)
  byStatus : ∀ id, openRequests db id =
    db.packageRequests.countP fun r => r.packageBaseID == some id && r.status == .pending
  byClosedTS : ∀ id, openRequests db id =
    db.packageRequests.countP fun r => r.packageBaseID == some id && r.offersClose

theorem ClosedTogether.readersAgree {db : Db} (h : ClosedTogether db) : ReadersAgree db := by
  have hpage : ∀ r ∈ db.packageRequests, (r.status == .pending) = r.offersClose := by
    intro r hr
    have hr' := h r hr
    unfold PackageRequest.offersClose
    by_cases hs : r.status = .pending
    · have hc : r.closedTS = none := by
        by_contra hc
        exact hr'.mpr hc hs
      simp [hs, hc]
    · have hc : r.closedTS ≠ none := hr'.mp hs
      obtain ⟨ts, hts⟩ := Option.ne_none_iff_exists'.mp hc
      simp [hs, hts]
  refine ⟨hpage, ?_, fun id => ?_, fun id => ?_⟩
  · exact List.countP_congr fun r hr => by rw [hpage r hr]
  · refine List.countP_congr fun r hr => ?_
    have hr' := hpage r hr
    unfold PackageRequest.offersClose at hr'
    rw [← hr', Bool.and_self]
  · refine List.countP_congr fun r hr => ?_
    have hr' := hpage r hr
    unfold PackageRequest.offersClose at hr' ⊢
    rw [hr', Bool.and_self]

section

variable {cfg : Config} {may : May} {db db' : Db}

theorem ClosedTogether.write (haccept : ¬may.accept) (hw : Write cfg may db db')
    (h : ClosedTogether db) : ClosedTogether db' := by
  intro r' hr'
  rcases hw.requests.mem hr' with ⟨r, hr, ht⟩ | hfiled
  · have hold := h r hr
    cases ht with
    | settled hs =>
        by_cases hp : r.status = .pending
        · have hnone : r.closedTS = none := by
            by_contra hc
            exact hold.mpr hc hp
          rcases hs.pending hp with ⟨hp', hc'⟩ | ⟨hp', hc'⟩
          · simp [hp', hc', hnone]
          · obtain ⟨ts, hts⟩ := Option.isSome_iff_exists.mp hc'
            simp [hp', hts]
        · rw [hs.settled hp]
          exact hold
    | reclosed _ hc =>
        obtain ⟨ts, hts⟩ := Option.isSome_iff_exists.mp hc.closedTS
        simp [hc.status, hts]
    | accepted hmay => exact absurd hmay haccept
    | adrift => exact hold
    | forgotten => exact hold
  · obtain ⟨r, hr, rfl⟩ := hfiled
    rcases hr.closedTS with ⟨hp, hc⟩ | ⟨hp, hc⟩
    · simp [hp, hc]
    · obtain ⟨ts, hts⟩ := Option.isSome_iff_exists.mp hc
      simp [hp, hts]

/-- What an orphan request that is granted on the spot leaves. -/
theorem autoOrphan_unclosed (user : User) {name type comments : String}
    {mergeInto : Option String} {now : Nat} {b : PackageBase}
    (h : AutoOrphans cfg db name type mergeInto comments now b) :
    ∃ r ∈ (pkgbaseRequestPost cfg db user name type mergeInto comments now).2.packageRequests,
      r.status = .accepted ∧ r.closedTS = none := by
  obtain ⟨hcheck, hflagged⟩ := h
  unfold pkgbaseRequestPost
  simp only [hcheck, hflagged, and_self, if_true]
  let filed := newRequest .orphan user b mergeInto comments "" now
  refine ⟨{ filed with id := db.nextID, status := .accepted }, ?_, rfl, rfl⟩
  refine Table.mem_update.mpr ⟨{ filed with id := db.nextID }, ?_, ?_⟩
  · exact List.mem_append_right _ (List.mem_singleton.mpr rfl)
  · simp [filed, newRequest]

theorem not_closedTogether_of_accepts {op : Op} (h : op.Accepts cfg db) :
    ¬ClosedTogether (step cfg db op) := by
  intro htogether
  cases op with
  | post uid now form =>
      obtain ⟨user, hu, hform⟩ := h
      cases form with
      | request name type mergeInto comments =>
          obtain ⟨b, hauto⟩ := hform
          obtain ⟨r, hr, hstatus, hclosed⟩ := autoOrphan_unclosed user hauto
          simp only [step, hu, Form.post] at htogether
          exact (htogether r hr).mp (by simp [hstatus]) hclosed
      | _ => exact hform
  | _ => exact h

/--
**Who tests `Status`, who tests `ClosedTS` and who tests both agree on which requests are
open, all along a run, exactly when the run grants no orphan request as it is filed.**
-/
theorem closedTogether_iff (cfg : Config) (db : Db) (ops : List Op) (hwf : WellFormed cfg db)
    (h : ClosedTogether db) :
    Run.Along (step cfg) (fun db => ClosedTogether db ∧ ReadersAgree db) db ops ↔
      Run.Guarded (step cfg) (fun db op => ¬op.Accepts cfg db) db ops := by
  have hexact : Run.Along (step cfg) ClosedTogether db ops ↔
      Run.Guarded (step cfg) (fun db op => ¬op.Accepts cfg db) db ops := by
    refine along_iff_of_writes ?_ ?_ hwf h
    · intro db₀ op db db' _ _ hnot _ hw hold
      refine hold.write (fun hmay => hnot ?_) hw
      exact (explains_mayOf cfg db₀ op).accept hmay
    · intro db op _ _ hnext hop
      exact not_closedTogether_of_accepts hop hnext
  rw [← hexact]
  constructor
  · exact Run.Along.imp fun db hboth => hboth.1
  · exact Run.Along.imp fun db htogether => ⟨htogether, htogether.readersAgree⟩

end

instance : DecidablePred ClosedTogether := fun db =>
  inferInstanceAs
    (Decidable (∀ r ∈ db.packageRequests, r.status ≠ .pending ↔ r.closedTS ≠ none))

/-- `alice` asks for `foo` to be orphaned, a hundred days after it was flagged. -/
def orphanRequest (days : Nat) : Op :=
  .post 1 (days * 86400 * 1000000) (.request "foo" "orphan" none "no updates")

theorem closedTogether_iff_smallSite :
    Run.Along (step siteConfig) (fun db => ClosedTogether db ∧ ReadersAgree db) smallSite
        [orphanRequest 100] ↔
      Run.Guarded (step siteConfig) (fun db op => ¬op.Accepts siteConfig db) smallSite
        [orphanRequest 100] :=
  closedTogether_iff siteConfig smallSite [orphanRequest 100] smallSite_wellFormed (by decide)

/-- A request that is accepted at once has no time of closure. -/
theorem granted_request_not_closed :
    ClosedTogether smallSite ∧
      ¬Run.Along (step siteConfig) ClosedTogether smallSite [orphanRequest 200] := by
  decide +kernel

/-! ### Decided once -/

/-- The request stays as it was decided; `forgotten` says whose deletion its closer may be
lost to. -/
structure Decided (forgotten : Nat → Prop) (r r' : PackageRequest) : Prop where
  id : r'.id = r.id
  status : r'.status = r.status
  closedTS : r'.closedTS = r.closedTS
  closureComment : r'.closureComment = r.closureComment
  closer : r'.closedUID = r.closedUID ∨
    r'.closedUID = none ∧ ∃ uid, r.closedUID = some uid ∧ forgotten uid

theorem Decided.refl (forgotten : Nat → Prop) (r : PackageRequest) : Decided forgotten r r :=
  ⟨rfl, rfl, rfl, rfl, Or.inl rfl⟩

theorem Decided.trans {forgotten : Nat → Prop} {r₁ r₂ r₃ : PackageRequest}
    (h : Decided forgotten r₁ r₂) (h' : Decided forgotten r₂ r₃) : Decided forgotten r₁ r₃ where
  id := h'.id.trans h.id
  status := h'.status.trans h.status
  closedTS := h'.closedTS.trans h.closedTS
  closureComment := h'.closureComment.trans h.closureComment
  closer := by
    rcases h.closer with heq | ⟨hnone, hgone⟩
    · rw [← heq]
      exact h'.closer
    · rcases h'.closer with heq | ⟨hnone', -⟩
      · exact Or.inr ⟨heq.trans hnone, hgone⟩
      · exact Or.inr ⟨hnone', hgone⟩

theorem Decided.mono {forgotten forgotten' : Nat → Prop} (himp : ∀ uid, forgotten uid → forgotten' uid)
    {r r' : PackageRequest} (h : Decided forgotten r r') : Decided forgotten' r r' :=
  ⟨h.id, h.status, h.closedTS, h.closureComment,
    h.closer.imp (fun heq => heq) fun ⟨hnone, uid, hsome, hgone⟩ => ⟨hnone, uid, hsome, himp uid hgone⟩⟩

/-- Every request that has been decided is still there, as it was decided. -/
def StayDecided (forgotten : Nat → Prop) (db db' : Db) : Prop :=
  ∀ r ∈ db.packageRequests, r.status ≠ .pending →
    ∃ r' ∈ db'.packageRequests, Decided forgotten r r'

theorem StayDecided.refl (forgotten : Nat → Prop) (db : Db) : StayDecided forgotten db db :=
  fun r hr _ => ⟨r, hr, Decided.refl forgotten r⟩

theorem StayDecided.trans {forgotten : Nat → Prop} {db₁ db₂ db₃ : Db}
    (h : StayDecided forgotten db₁ db₂) (h' : StayDecided forgotten db₂ db₃) :
    StayDecided forgotten db₁ db₃ := by
  intro r hr hstatus
  obtain ⟨r', hr', hd⟩ := h r hr hstatus
  obtain ⟨r'', hr'', hd'⟩ := h' r' hr' (by rw [hd.status]; exact hstatus)
  exact ⟨r'', hr'', hd.trans hd'⟩

section

variable {cfg : Config} {may : May} {db db' : Db}

theorem StayDecided.write (hreclose : ¬may.reclose) (hw : Write cfg may db db') :
    StayDecided may.remove db db' := by
  intro r hr hstatus
  obtain ⟨r', hr', ht⟩ := hw.requests.mem_of_mem hr
  refine ⟨r', hr', ?_⟩
  cases ht with
  | settled h =>
      rw [h.settled hstatus]
      exact Decided.refl _ _
  | reclosed hmay => exact absurd hmay hreclose
  | accepted _ hpending => exact absurd hpending hstatus
  | adrift => exact ⟨rfl, rfl, rfl, rfl, Or.inl rfl⟩
  | @forgotten uid hmay =>
      refine ⟨rfl, rfl, rfl, rfl, ?_⟩
      by_cases hcloser : r.closedUID = some uid
      · exact Or.inr ⟨if_pos hcloser, uid, hcloser, hmay⟩
      · exact Or.inl (if_neg hcloser)

theorem stayDecided_step (hwf : WellFormed cfg db) {op : Op} (hop : ¬op.Recloses db) :
    StayDecided (fun uid => op.Removes cfg db uid) db (step cfg db op) := by
  have hslips : op.Explains cfg db (mayOf cfg db op) := explains_mayOf cfg db op
  have hchain : StayDecided (mayOf cfg db op).remove db (step cfg db op) :=
    (writes_step hwf op).rel (StayDecided.refl _) StayDecided.trans
      (StayDecided.write fun hmay => hop (hslips.reclose hmay))
  intro r hr hstatus
  obtain ⟨r', hr', hd⟩ := hchain r hr hstatus
  exact ⟨r', hr', hd.mono hslips.remove⟩

end

/-- `bob` closes the request. -/
def closeRequest (id : Nat) (comments : String) : Op :=
  .post 2 (101 * 86400 * 1000000) (.requestClose id comments)

/-- An account is deleted by its owner. -/
def deleteOwnAccount (uid : Nat) (name : String) : Op :=
  .post uid (102 * 86400 * 1000000) (.accountDelete name true true)

/-- Every pending request is about a package base that is there. -/
def Anchored (db : Db) : Prop :=
  ∀ r ∈ db.packageRequests, r.status = .pending →
    ∃ b ∈ db.packageBases, r.packageBaseID = some b.id

instance : DecidablePred Anchored := fun db =>
  inferInstanceAs (Decidable (∀ r ∈ db.packageRequests, r.status = .pending →
    ∃ b ∈ db.packageBases, r.packageBaseID = some b.id))

section

variable {cfg : Config} {may : May} {db db' : Db}

theorem Anchored.write (hdesert : ¬may.desert) (hwf : WellFormed cfg db)
    (hw : Write cfg may db db') (h : Anchored db) : Anchored db' := by
  intro r' hr' hpending
  have hsome : ∃ id, r'.packageBaseID = some id := by
    rcases hw.requests.mem hr' with ⟨r, hr, ht⟩ | hfiled
    · cases ht with
      | settled hs =>
          have hp : r.status = .pending := by
            by_contra hne
            rw [hs.settled hne] at hpending
            exact hne hpending
          obtain ⟨b, -, hid⟩ := h r hr hp
          exact ⟨b.id, hs.base.trans hid⟩
      | reclosed _ hc => exact absurd hpending hc.status
      | accepted => cases hpending
      | adrift hleft =>
          rcases hleft with hmay | hne
          · exact absurd hmay hdesert
          · exact absurd hpending hne
      | forgotten =>
          obtain ⟨b, -, hid⟩ := h r hr hpending
          exact ⟨b.id, hid⟩
    · obtain ⟨r, hr, rfl⟩ := hfiled
      obtain ⟨b, -, hid, -⟩ := hr.base
      exact ⟨b.id, hid⟩
  obtain ⟨id, hid⟩ := hsome
  obtain ⟨b, hb, hbid, -⟩ := (hw.wellFormed hwf).requestBases r' hr' id hid
  exact ⟨b, hb, by rw [hid, hbid]⟩

end

/-- `bob` deletes `foo`. -/
def deleteFoo : Op := .post 2 (101 * 86400 * 1000000) (.delete "foo" true "" "/packages")

end Aurweb
