/-
What a deadlock does to a web disown.

`handle_request` survives one wherever it comes: its first transaction leaves nothing behind
when it is rolled back, and its second is retried by itself.  So does a disowning by the
maintainer or by a comaintainer, which is one transaction.  An enforced disowning does not.
Its comment is written outside of every retry, and once `handle_request` has closed the due
requests there are none left for the next attempt to find.
-/
import Aurweb.DisownRetry
import Aurweb.Proofs.RefusedDisown

namespace Aurweb.DisownRetry

open Retry (Spares Survives Settled Ends EndsOrUndone)

section

variable {cfg : Config} {db : Db} {user : User} {b : PackageBase} {now : Nat}

/-! ### What is never tried again -/

theorem Wordless.ne_deadlock {e : Raised} (h : Wordless e) : (e == deadlock) = false := by
  rcases h with rfl | rfl
  · rfl
  · rfl

theorem settled_retryClosures (user : User) (pkgbase : PackageBase) (target : Option PackageBase)
    (toAccept toReject : List Nat) (now : Nat) :
    Settled (· == deadlock) fun db =>
      retryClosures db user pkgbase target toAccept toReject now :=
  fun _ _ he => Wordless.ne_deadlock (retryClosures_wordless he)

theorem settled_done (f : Db → Db) : Settled (· == deadlock) fun db => done (f db) :=
  fun _ _ he => by cases he

/-! ### `handle_request` -/

/-- What `handle_request` does, from what it has found. -/
def handling (cfg : Config) (user : User) (reqType : RequestType) (pkgbase : PackageBase)
    (target : Option PackageBase) (comments : String) (acceptIDs : Option (List Nat)) (now : Nat)
    (found : Db) : Retry.Program Raised Db Unit :=
  if reqType = .orphan ∧ verifyOrphanRequest cfg found pkgbase now = false then fun db =>
    (.error (.invariant s!"No due existing orphan requests to accept for {pkgbase.name}."), db)
  else
    let toAccept := acceptIDsOf cfg found reqType pkgbase target acceptIDs
    let toReject := rejectIDsOf cfg found reqType pkgbase target acceptIDs
    let closures := fun toAccept db =>
      retryClosures db user pkgbase target toAccept toReject now
    if toAccept.isEmpty then
      let mergeInto := if reqType = .merge then target.map (·.name) else none
      let created := newRequest reqType user pkgbase mergeInto "Autogenerated by aurweb."
        comments now
      Retry.andThen (fun db => done (insertRequest db created)) fun _ => closures [found.nextID]
    else closures toAccept

theorem handling_self (cfg : Config) (db : Db) (user : User) (reqType : RequestType)
    (pkgbase : PackageBase) (target : Option PackageBase) (comments : String)
    (acceptIDs : Option (List Nat)) (now : Nat) :
    handling cfg user reqType pkgbase target comments acceptIDs now db db =
      Aurweb.handleRequest cfg db user reqType pkgbase target comments acceptIDs now := by
  unfold handling Aurweb.handleRequest
  by_cases hdue : reqType = .orphan ∧ verifyOrphanRequest cfg db pkgbase now = false
  · rw [if_pos hdue, if_pos hdue]
  rw [if_neg hdue, if_neg hdue]
  by_cases hempty : (acceptIDsOf cfg db reqType pkgbase target acceptIDs).isEmpty = true
  · exact (congrFun (if_pos hempty) db).trans (if_pos hempty).symm
  · exact (congrFun (if_neg hempty) db).trans (if_neg hempty).symm

theorem settled_handling (cfg : Config) (user : User) (reqType : RequestType)
    (pkgbase : PackageBase) (target : Option PackageBase) (comments : String)
    (acceptIDs : Option (List Nat)) (now : Nat) (found : Db) :
    Settled (· == deadlock)
      (handling cfg user reqType pkgbase target comments acceptIDs now found) := by
  unfold handling
  split
  · intro db e he
    obtain rfl := Except.error.inj he
    simp [deadlock]
  · simp only
    split
    · exact (settled_done _).andThen fun _ => settled_retryClosures user pkgbase target _ _ now
    · exact settled_retryClosures user pkgbase target _ _ now

theorem survives_closures (v : Option Point) (user : User) (pkgbase : PackageBase)
    (target : Option PackageBase) (toAccept toReject : List Nat) (now : Nat) :
    Survives v
      (retryDeadlock (transaction .closures fun db =>
        retryClosures db user pkgbase target toAccept toReject now))
      fun db => retryClosures db user pkgbase target toAccept toReject now := by
  refine Survives.retry_transaction deadlock _ _ (by simp) ?_ 9
  exact settled_retryClosures user pkgbase target toAccept toReject now

/-- One run of the function, with what it has read. -/
theorem handleFound_ends (cfg : Config) (user : User) (reqType : RequestType)
    (pkgbase : PackageBase) (target : Option PackageBase) (comments : String)
    (acceptIDs : Option (List Nat)) (now : Nat) (found : Db) (w : World) :
    EndsOrUndone (· == deadlock)
      (handleFound cfg user reqType pkgbase target comments acceptIDs now found)
      (handling cfg user reqType pkgbase target comments acceptIDs now found) w := by
  unfold handleFound handling
  by_cases hdue : reqType = .orphan ∧ verifyOrphanRequest cfg found pkgbase now = false
  · rw [if_pos hdue, if_pos hdue]
    exact Or.inl ⟨rfl, rfl, Or.inr rfl⟩
  rw [if_neg hdue, if_neg hdue]
  unfold acceptIDsOf rejectIDsOf
  simp only
  split
  · refine Retry.endsOrUndone_andThen deadlock _ _ (by simp) (fun v _ => ?_) w
    exact survives_closures v user pkgbase target _ _ now
  · exact Or.inl (survives_closures w.victim user pkgbase target _ _ now w (Or.inr rfl))

theorem settled_handleRequest (cfg : Config) (user : User) (reqType : RequestType)
    (pkgbase : PackageBase) (target : Option PackageBase) (comments : String)
    (acceptIDs : Option (List Nat)) (now : Nat) :
    Settled (· == deadlock) fun db =>
      Aurweb.handleRequest cfg db user reqType pkgbase target comments acceptIDs now := by
  intro db e he
  simp only [← handling_self] at he
  exact settled_handling cfg user reqType pkgbase target comments acceptIDs now db db e he

/-- Whatever is handled, and wherever the deadlock is. -/
theorem survives_handleRequest (v : Option Point) (cfg : Config) (user : User)
    (reqType : RequestType) (pkgbase : PackageBase) (target : Option PackageBase)
    (comments : String) (acceptIDs : Option (List Nat)) (now : Nat) :
    Survives v (handleRequest cfg user reqType pkgbase target comments acceptIDs now)
      fun db => Aurweb.handleRequest cfg db user reqType pkgbase target comments acceptIDs now := by
  have hsettled := settled_handleRequest cfg user reqType pkgbase target comments acceptIDs now
  refine Survives.retry_undone (fun w => ?_) hsettled 9
  have hends := handleFound_ends cfg user reqType pkgbase target comments acceptIDs now w.stored w
  unfold EndsOrUndone at hends ⊢
  rwa [handling_self] at hends

/-- A deadlock that comes elsewhere, or nowhere. -/
theorem spares_handleRequest {v : Option Point} (hv : v ≠ some .creation)
    (hv' : v ≠ some .closures) (cfg : Config) (user : User) (reqType : RequestType)
    (pkgbase : PackageBase) (target : Option PackageBase) (comments : String)
    (acceptIDs : Option (List Nat)) (now : Nat) :
    Spares v (handleRequest cfg user reqType pkgbase target comments acceptIDs now)
      fun db => Aurweb.handleRequest cfg db user reqType pkgbase target comments acceptIDs now := by
  have hclosures : ∀ toAccept toReject, Spares v
      (retryDeadlock (transaction .closures fun db =>
        retryClosures db user pkgbase target toAccept toReject now))
      fun db => retryClosures db user pkgbase target toAccept toReject now := by
    intro toAccept toReject
    apply (Spares.transaction hv' deadlock _).retry
    exact settled_retryClosures user pkgbase target toAccept toReject now
  have hfound : ∀ found, Spares v
      (handleFound cfg user reqType pkgbase target comments acceptIDs now found)
      (handling cfg user reqType pkgbase target comments acceptIDs now found) := by
    intro found
    unfold handleFound handling
    by_cases hdue : reqType = .orphan ∧ verifyOrphanRequest cfg found pkgbase now = false
    · rw [if_pos hdue, if_pos hdue]
      exact Spares.pure v _
    rw [if_neg hdue, if_neg hdue]
    unfold acceptIDsOf rejectIDsOf
    simp only
    split
    · exact (Spares.transaction hv deadlock _).andThen fun _ => hclosures _ _
    · exact hclosures _ _
  have hplain : (fun db => Aurweb.handleRequest cfg db user reqType pkgbase target comments
      acceptIDs now) = fun db =>
        handling cfg user reqType pkgbase target comments acceptIDs now db db := by
    funext db
    rw [handling_self]
  have hsettled := settled_handleRequest cfg user reqType pkgbase target comments acceptIDs now
  rw [hplain] at hsettled ⊢
  exact (Spares.read hfound).retry hsettled 10

/-! ### `_retry_disown` -/

/-- What `_retry_disown` does, from what it has found. -/
def disowning (cfg : Config) (user : User) (pkgbase : PackageBase) (now : Nat) (found : Db) :
    Retry.Program Raised Db Unit :=
  if pkgbase.maintainerUID = some user.id then fun db => done (stepDown db pkgbase.id)
  else if isComaintainer found pkgbase.id user.id then fun db =>
    done (removeComaintainer db pkgbase.id user.id)
  else if hasCredential user .pkgbaseDisown [] then
    Retry.andThen
      (fun db => Aurweb.handleRequest cfg db user .orphan pkgbase none "" none now)
      fun _ db => done (orphan db pkgbase.id)
  else done

theorem andThen_eq (p : Db → Outcome) (next : Db → Outcome) (db : Db) :
    Retry.andThen p (fun _ => next) db = (p db).andThen next := by
  unfold Retry.andThen Outcome.andThen
  generalize p db = o
  obtain ⟨r, db'⟩ := o
  cases r with
  | error e => rfl
  | ok u => rfl

theorem disowning_self (cfg : Config) (db : Db) (user : User) (b : PackageBase) (now : Nat) :
    disowning cfg user b now db db = pkgbaseDisownInstance cfg db user b now := by
  unfold disowning pkgbaseDisownInstance
  split
  · rfl
  split
  · rfl
  split
  · exact andThen_eq _ _ db
  · rfl

theorem settled_disowning (cfg : Config) (user : User) (b : PackageBase) (now : Nat)
    (found : Db) : Settled (· == deadlock) (disowning cfg user b now found) := by
  unfold disowning
  split
  · exact settled_done _
  split
  · exact settled_done _
  split
  · exact (settled_handleRequest cfg user .orphan b none "" none now).andThen
      fun _ => settled_done _
  · exact settled_done id

/-- Nothing is lost before the last transaction. -/
theorem survives_disownFound {v : Option Point} (hv : v ≠ some .disowning) (cfg : Config)
    (user : User) (b : PackageBase) (now : Nat) (found : Db) :
    Survives v (disownFound cfg user b now found) (disowning cfg user b now found) := by
  have htransaction : ∀ body : Db → Outcome, Survives v (transaction .disowning body) body :=
    fun body => Survives.of_spares (Spares.transaction hv deadlock body)
      (Spares.transaction (by simp) deadlock body)
  unfold disownFound disowning
  split
  · exact htransaction _
  split
  · exact htransaction _
  split
  · apply Survives.andThen (survives_handleRequest v cfg user .orphan b none "" none now)
    intro _
    exact htransaction _
  · exact Survives.of_spares (Spares.pure v _) (Spares.pure none _)

/-- The function without its decorator, when the deadlock is none of its own. -/
theorem spares_disown {v : Option Point} (hv : v = none ∨ v = some .comments) (cfg : Config)
    (user : User) (b : PackageBase) (now : Nat) :
    Spares v (fun w => disownFound cfg user b now w.stored w)
      fun db => pkgbaseDisownInstance cfg db user b now := by
  have hne : ∀ {point : Point}, point ≠ .comments → v ≠ some point := by
    intro point hpoint hsome
    rcases hv with rfl | rfl
    · cases hsome
    · exact hpoint (Option.some.inj hsome).symm
  have htransaction : ∀ body : Db → Outcome, Spares v (transaction .disowning body) body :=
    Spares.transaction (hne (by simp)) deadlock
  have hfound : ∀ found, Spares v (disownFound cfg user b now found)
      (disowning cfg user b now found) := by
    intro found
    unfold disownFound disowning
    split
    · exact htransaction _
    split
    · exact htransaction _
    split
    · apply Spares.andThen
        (spares_handleRequest (hne (by simp)) (hne (by simp)) cfg user .orphan b none "" none now)
      intro _
      exact htransaction _
    · exact Spares.pure v _
  have hplain : (fun db => pkgbaseDisownInstance cfg db user b now) =
      fun db => disowning cfg user b now db db := by
    funext db
    rw [disowning_self]
  rw [hplain]
  exact Spares.read hfound

theorem settled_disownInstance (cfg : Config) (user : User) (b : PackageBase) (now : Nat) :
    Settled (· == deadlock) fun db => pkgbaseDisownInstance cfg db user b now := by
  intro db e he
  simp only [← disowning_self] at he
  exact settled_disowning cfg user b now db db e he

theorem spares_retryDisown {v : Option Point} (hv : v = none ∨ v = some .comments) (cfg : Config)
    (user : User) (b : PackageBase) (now : Nat) :
    Spares v (retryDisown cfg user b now) fun db => pkgbaseDisownInstance cfg db user b now :=
  (spares_disown hv cfg user b now).retry (settled_disownInstance cfg user b now) 10

/-- What has come through once, or has left everything as it was, comes through. -/
theorem ends_retryDisown {v : Option Point}
    (h : EndsOrUndone (· == deadlock) (disownFound cfg user b now db)
      (disowning cfg user b now db) ⟨db, v⟩) :
    Ends v (retryDisown cfg user b now ⟨db, v⟩) (pkgbaseDisownInstance cfg db user b now) := by
  have hcalm : Ends none (disownFound cfg user b now db ⟨db, none⟩)
      (disowning cfg user b now db db) :=
    survives_disownFound (by simp) cfg user b now db ⟨db, none⟩ (Or.inl rfl)
  have hends := Retry.ends_retry (p := fun w => disownFound cfg user b now w.stored w)
    (f := fun db => disowning cfg user b now db db) (w := ⟨db, v⟩) h hcalm
    (settled_disowning cfg user b now db db) 9
  rw [← disowning_self]
  exact hends

/-- A disowning of one's own is one transaction. -/
theorem ends_own (h : WorksOn db user b) (cfg : Config) (now : Nat) (v : Option Point) :
    Ends v (retryDisown cfg user b now ⟨db, v⟩) (pkgbaseDisownInstance cfg db user b now) := by
  apply ends_retryDisown
  unfold disownFound disowning
  split
  · exact Retry.endsOrUndone_transaction deadlock _ _ (by simp) _
  · rename_i hm
    rw [if_pos (h.resolve_left hm), if_pos (h.resolve_left hm)]
    exact Retry.endsOrUndone_transaction deadlock _ _ (by simp) _

/-- There is somebody to be removed from the base. -/
def Staffed (db : Db) (b : PackageBase) : Prop :=
  b.maintainerUID ≠ none ∨ ∃ c ∈ db.packageComaintainers, c.of b.id = true

theorem orphan_eq_self_iff (db : Db) (hbases : (db.packageBases.map (·.id)).Nodup)
    (hb : b ∈ db.packageBases) : orphan db b.id = db ↔ ¬Staffed db b := by
  have hrow : db.packageBase? b.id = some b := Table.find?_key hbases hb
  unfold Staffed
  rw [not_or, not_not]
  constructor
  · intro h
    constructor
    · have hmaintainer : ((orphan db b.id).packageBase? b.id).bind (·.maintainerUID) = none :=
        maintainer_setMaintainer hrow none
      rw [h, hrow] at hmaintainer
      exact hmaintainer
    · rintro ⟨c, hc, hof⟩
      have hline := comaintainersOf_orphan db b.id
      rw [h] at hline
      have hmem : c ∈ comaintainersOf db b.id := List.mem_filter.mpr ⟨hc, hof⟩
      rw [hline] at hmem
      exact List.not_mem_nil hmem
  · rintro ⟨hm, hline⟩
    have hbases' : Table.update (fun b' : PackageBase => b'.id == b.id)
        (fun b' => { b' with maintainerUID := none }) db.packageBases = db.packageBases := by
      refine Table.update_eq_self_iff.mpr fun b' hb' hid => ?_
      have heq : b' = b := by
        have hrow' := Table.find?_key hbases hb'
        rw [beq_iff_eq.mp hid] at hrow'
        exact Option.some.inj (hrow'.symm.trans hrow)
      rw [heq, ← hm]
    have hrows : Table.delete (fun c => c.of b.id && true) db.packageComaintainers =
        db.packageComaintainers := by
      apply Table.delete_eq_self
      intro c hc
      rw [Bool.and_true]
      by_contra hof
      exact hline ⟨c, hc, by simpa using hof⟩
    unfold orphan setMaintainer Db.updatePackageBase deleteComaintainers
    rw [hbases', hrows]

/-- An enforced disowning survives unless its last transaction is the victim. -/
theorem ends_enforced (db : Db) (hbases : (db.packageBases.map (·.id)).Nodup) (hb : b ∈ db.packageBases)
    (hm : b.maintainerUID ≠ some user.id) (hco : isComaintainer db b.id user.id = false)
    (hel : hasCredential user .pkgbaseDisown [] = true) {v : Option Point}
    (hv : v ≠ some .disowning ∨ verifyOrphanRequest cfg db b now = false ∨ ¬Staffed db b) :
    Ends v (retryDisown cfg user b now ⟨db, v⟩) (pkgbaseDisownInstance cfg db user b now) := by
  apply ends_retryDisown
  by_cases hlast : v = some .disowning
  swap
  · exact Or.inl (survives_disownFound hlast cfg user b now db ⟨db, v⟩ (Or.inr rfl))
  subst hlast
  refine Or.inl ?_
  unfold disownFound disowning
  rw [if_neg hm, if_neg (by simp [hco]), if_pos hel, if_neg hm, if_neg (by simp [hco]), if_pos hel]
  apply Retry.ends_andThen
    (spares_handleRequest (by simp) (by simp) cfg user .orphan b none "" none now)
  intro _ hok
  have hidle : orphan (Aurweb.handleRequest cfg db user .orphan b none "" none now).2 b.id =
      (Aurweb.handleRequest cfg db user .orphan b none "" none now).2 := by
    have hunstaffed : ¬Staffed db b := by
      rcases hv with hv | hundue | hunstaffed
      · exact absurd rfl hv
      · rw [handleRequest_undue user hundue] at hok
        cases hok
      · exact hunstaffed
    obtain ⟨rows, n, hrows⟩ := handleRequest_frame cfg db user .orphan b none "" none now
    rw [hrows]
    exact (orphan_eq_self_iff { db with packageRequests := rows, nextID := n } hbases
      hb).mpr hunstaffed
  exact Retry.ends_of_spared deadlock Point.disowning (fun db => done (orphan db b.id))
    (w := ⟨_, some .disowning⟩) (Or.inr hidle)

/-! ### The form -/

/-- The form of a run that has the victim `v`: what it answers, and what is stored then. -/
def run (cfg : Config) (db : Db) (user : User) (name comments : String) (confirm : Bool)
    (next : String) (now : Nat) (v : Option Point) : Response × Db :=
  let r := pkgbaseDisownPost cfg user name comments confirm next now ⟨db, v⟩
  (r.1, r.2.stored)

variable {name comments next : String} {confirm : Bool}

theorem run_checked (h : Checked cfg db user b comments confirm)
    (hnamed : baseNamed cfg db name = some b) (v : Option Point) :
    run cfg db user name comments confirm next now v =
      (answer next name (disownChecked cfg user b comments now db ⟨db, v⟩).1,
        (disownChecked cfg user b comments now db ⟨db, v⟩).2.stored) := by
  unfold run pkgbaseDisownPost
  simp [hnamed, h.comment, h.credential, h.confirmed]

/-- A form that is turned away has begun no transaction. -/
theorem run_unchecked (h : ∀ b, baseNamed cfg db name = some b →
      ¬Checked cfg db user b comments confirm) (v : Option Point) :
    run cfg db user name comments confirm next now v =
      run cfg db user name comments confirm next now none := by
  unfold run pkgbaseDisownPost
  simp only
  split
  · rfl
  · rename_i b hnamed
    split
    · rfl
    · rename_i hcomment
      split
      · rfl
      split
      · rfl
      · rename_i hcred hconfirm
        exact absurd ⟨hcomment, by simpa using hcred, by simpa using hconfirm⟩ (h b hnamed)

/-- The requests as the form goes on to find them. -/
def commented (cfg : Config) (db : Db) (b : PackageBase) (comments : String) : Db :=
  updateClosureComment cfg db b .orphan comments none

theorem disownChecked_own (h : WorksOn db user b) (v : Option Point) :
    disownChecked cfg user b comments now db ⟨db, v⟩ = retryDisown cfg user b now ⟨db, v⟩ := by
  unfold disownChecked
  rw [if_neg fun hnot => not_worksOn_iff.mpr hnot h]
  rfl

theorem disownChecked_spared (h : ¬WorksOn db user b) {v : Option Point}
    (hv : v ≠ some .comments ∨ ¬Overwrites db b comments) :
    disownChecked cfg user b comments now db ⟨db, v⟩ =
      retryDisown cfg user b now ⟨commented cfg db b comments, v⟩ := by
  unfold disownChecked
  rw [if_pos (not_worksOn_iff.mp h)]
  have hspared := Retry.transaction_spared deadlock Point.comments
    (fun db => done (updateClosureComment cfg db b .orphan comments none)) (w := ⟨db, v⟩)
    (hv.imp_right updateClosureComment_eq_self_iff.mpr)
  unfold Retry.andThen transaction
  rw [hspared]
  rfl

theorem disownChecked_victim (h : ¬WorksOn db user b) (hover : Overwrites db b comments) :
    disownChecked cfg user b comments now db ⟨db, some .comments⟩ =
      (.error deadlock, ⟨db, none⟩) := by
  unfold disownChecked
  rw [if_pos (not_worksOn_iff.mp h)]
  have hvictim := Retry.transaction_victim deadlock Point.comments
    (fun db => done (updateClosureComment cfg db b .orphan comments none))
    (w := ⟨db, some .comments⟩) rfl (fun heq => updateClosureComment_eq_self_iff.mp heq hover)
  unfold Retry.andThen transaction
  rw [hvictim]

/-! ### A second attempt -/

/-- Where a request is due, the requests are handled without fail. -/
theorem handleRequest_ok (hreq : Table.Numbered (·.id) db.nextID db.packageRequests)
    (hdue : verifyOrphanRequest cfg db b now = true) (user : User) :
    (Aurweb.handleRequest cfg db user .orphan b none "" none now).1 = .ok () := by
  have htext : HasText b none .accepted .orphan := ⟨_, rfl⟩
  have hreject := rejectIDsOf_all cfg db .orphan b
  unfold Aurweb.handleRequest
  rw [if_neg (by simp [hdue])]
  show (if (acceptIDsOf cfg db .orphan b none none).isEmpty = true then
      retryClosures (insertRequest db (newRequest .orphan user b none "Autogenerated by aurweb."
        "" now)) user b none [db.nextID] (rejectIDsOf cfg db .orphan b none none) now
    else retryClosures db user b none (acceptIDsOf cfg db .orphan b none none)
      (rejectIDsOf cfg db .orphan b none none) now).1 = _
  rw [hreject]
  split
  · refine retryClosures_ok (fun r hr hid => ?_) fun r _ hid => absurd hid List.not_mem_nil
    rcases mem_insertRequest hr with hr | rfl
    · have hlt := hreq.lt r hr
      rw [List.mem_singleton.mp hid] at hlt
      exact absurd hlt (Nat.lt_irrefl _)
    · exact htext
  · refine retryClosures_ok (fun r hr hid => ?_) fun r _ hid => absurd hid List.not_mem_nil
    obtain ⟨r₀, hr₀, heq⟩ := List.mem_map.mp hid
    obtain ⟨hmem, hq⟩ := List.mem_filter.mp (List.mem_filter.mp hr₀).1
    rw [← hreq.eq_of_key hmem hr heq, (queried_pending hq).2.1]
    exact htext

/-- Once they have been handled, there is nothing left to accept. -/
theorem acceptIDsOf_handled
    (hok : (Aurweb.handleRequest cfg db user .orphan b none "" none now).1 = .ok ()) :
    acceptIDsOf cfg (Aurweb.handleRequest cfg db user .orphan b none "" none now).2 .orphan b none
      none = [] := by
  have hclosed : ∀ (db : Db) (ids : List Nat),
      (∀ r ∈ db.packageRequests, queried cfg .orphan b r = true → r.id ∈ ids) →
      (retryClosures db user b none ids [] now).1 = .ok () →
      acceptIDsOf cfg (retryClosures db user b none ids [] now).2 .orphan b none none = [] := by
    intro db ids hids hok
    rcases retryClosures_cases db user b none ids [] now with ⟨e, he⟩ | ⟨rows, hrows, heq⟩
    · rw [he] at hok
      cases hok
    rw [heq]
    unfold acceptIDsOf
    rw [List.map_eq_nil_iff, List.filter_filter, List.filter_eq_nil_iff]
    intro r' hr' hcond
    obtain ⟨r, -, hr, hcloses, hsame⟩ := Table.exists_of_forall₂ hrows hr'
    have hq : queried cfg .orphan b r' = true := (Bool.and_eq_true_iff.mp hcond).2
    by_cases hid : r.id ∈ ids
    · exact (hcloses (Or.inl hid)).status (queried_pending hq).1
    · obtain rfl := hsame hid List.not_mem_nil
      exact hid (hids r' hr hq)
  have hquery : ∀ r ∈ db.packageRequests, queried cfg .orphan b r = true →
      r.id ∈ acceptIDsOf cfg db .orphan b none none := by
    intro r hr hq
    have hid : r.id ∈ acceptIDsOf cfg db .orphan b none none ∨
        r.id ∈ rejectIDsOf cfg db .orphan b none none := mem_of_queried hr hq
    rw [rejectIDsOf_all] at hid
    exact hid.resolve_right List.not_mem_nil
  rcases handleRequest_cases cfg db user .orphan b none "" none now with
    ⟨e, -, he⟩ | ⟨mergeInto, hempty, heq⟩ | heq
  · rw [he] at hok
    cases hok
  · rw [rejectIDsOf_all] at heq
    rw [heq] at hok ⊢
    refine hclosed _ _ (fun r hr hq => ?_) hok
    rcases mem_insertRequest hr with hr | rfl
    · have hid := hquery r hr hq
      rw [hempty] at hid
      exact absurd hid List.not_mem_nil
    · exact List.mem_singleton.mpr rfl
  · rw [rejectIDsOf_all] at heq
    rw [heq] at hok ⊢
    exact hclosed _ _ hquery hok

/-- Where there is nothing to accept, a request is added to those there are. -/
theorem length_handleRequest (hempty : acceptIDsOf cfg db .orphan b none none = [])
    (hok : (Aurweb.handleRequest cfg db user .orphan b none "" none now).1 = .ok ()) :
    (Aurweb.handleRequest cfg db user .orphan b none "" none now).2.packageRequests.length =
      db.packageRequests.length + 1 := by
  have hlength : ∀ (db : Db) (ids : List Nat),
      (retryClosures db user b none ids [] now).2.packageRequests.length =
        db.packageRequests.length := by
    intro db ids
    rcases retryClosures_cases db user b none ids [] now with ⟨e, he⟩ | ⟨rows, hrows, heq⟩
    · rw [he]
    · rw [heq]
      exact hrows.length_eq.symm
  unfold Aurweb.handleRequest at hok ⊢
  by_cases hundue : RequestType.orphan = .orphan ∧ verifyOrphanRequest cfg db b now = false
  · rw [if_pos hundue] at hok
    cases hok
  rw [if_neg hundue]
  show (if (acceptIDsOf cfg db .orphan b none none).isEmpty = true then
      retryClosures (insertRequest db (newRequest .orphan user b none "Autogenerated by aurweb."
        "" now)) user b none [db.nextID] (rejectIDsOf cfg db .orphan b none none) now
    else retryClosures db user b none (acceptIDsOf cfg db .orphan b none none)
      (rejectIDsOf cfg db .orphan b none none) now).2.packageRequests.length = _
  rw [hempty, if_pos List.isEmpty_nil, rejectIDsOf_all, hlength]
  exact List.length_append

/-- What a disowning that is tried again finds: nothing that is due, or nothing but a request
that should have been closed, in which case it files one more. -/
theorem second_attempt
    (hok : (Aurweb.handleRequest cfg db user .orphan b none "" none now).1 = .ok ())
    (hm : b.maintainerUID ≠ some user.id) (hco : isComaintainer db b.id user.id = false)
    (hel : hasCredential user .pkgbaseDisown [] = true) :
    let closed := (Aurweb.handleRequest cfg db user .orphan b none "" none now).2
    (pkgbaseDisownInstance cfg closed user b now).1 = .ok () →
      (pkgbaseDisownInstance cfg closed user b now).2.packageRequests.length =
        closed.packageRequests.length + 1 := by
  intro closed hagain
  have hempty : acceptIDsOf cfg closed .orphan b none none = [] := acceptIDsOf_handled hok
  have hco' : isComaintainer closed b.id user.id = false := by
    obtain ⟨rows, n, hrows⟩ := handleRequest_frame cfg db user .orphan b none "" none now
    show isComaintainer (Aurweb.handleRequest cfg db user .orphan b none "" none now).2 b.id
      user.id = false
    rw [hrows]
    exact hco
  unfold pkgbaseDisownInstance at hagain ⊢
  rw [if_neg hm, if_neg (by simp [hco']), if_pos hel] at hagain ⊢
  obtain ⟨hfirst, -, hafter⟩ := Outcome.andThen_ok hagain
  rw [hafter]
  exact length_handleRequest hempty hfirst

/-! ### Two runs of the form -/

/-- Two runs leave the base with the same maintainer and comaintainers and every request with
the same status, and the second has gone through if the first has. -/
structure SameEnd (b : PackageBase) (calm hit : Response × Db) : Prop where
  maintainer : (hit.2.packageBase? b.id).bind (·.maintainerUID) =
    (calm.2.packageBase? b.id).bind (·.maintainerUID)
  comaintainers : comaintainersOf hit.2 b.id = comaintainersOf calm.2 b.id
  statuses : (hit.2.packageRequests.map fun r => (r.id, r.status)) =
    calm.2.packageRequests.map fun r => (r.id, r.status)
  succeeds : ∀ url, calm.1 = .redirect url → hit.1 = .redirect url

theorem SameEnd.refl (b : PackageBase) (r : Response × Db) : SameEnd b r r :=
  ⟨rfl, rfl, rfl, fun _ h => h⟩

/-- The deadlocks a web disown does not get over: an enforced disowning that would go through
has its comment rolled back, or the removal of whoever works on the base. -/
structure Lost (cfg : Config) (db : Db) (user : User) (b : PackageBase) (comments : String)
    (confirm : Bool) (now : Nat) (point : Point) : Prop where
  enforces : Enforces cfg db user b comments confirm
  due : verifyOrphanRequest cfg db b now = true
  point : point = .comments ∧ Overwrites db b comments ∨ point = .disowning ∧ Staffed db b

theorem answer_eq (next name : String) (o : Outcome) :
    (match o with
      | (.error (.invariant message), db) => (.render 400 [message], db)
      | outcome => Outcome.response outcome (nextOr next s!"/pkgbase/{name}")) =
      (answer next name o.1, o.2) := by
  obtain ⟨r, db'⟩ := o
  cases r with
  | ok u => rfl
  | error e => cases e <;> rfl

theorem run_ends (h : Checked cfg db user b comments confirm)
    (hnamed : baseNamed cfg db name = some b) {v : Option Point} {o : Outcome}
    (hends : Ends v (disownChecked cfg user b comments now db ⟨db, v⟩) o) :
    run cfg db user name comments confirm next now v = (answer next name o.1, o.2) := by
  rw [run_checked h hnamed, hends.result, hends.stored]

/-- Without a deadlock, this is the form as it is modelled elsewhere. -/
theorem run_none (cfg : Config) (db : Db) (user : User) (name comments : String) (confirm : Bool)
    (next : String) (now : Nat) :
    run cfg db user name comments confirm next now none =
      Aurweb.pkgbaseDisownPost cfg db user name comments confirm next now := by
  cases hnamed : baseNamed cfg db name with
  | none =>
      unfold run pkgbaseDisownPost Aurweb.pkgbaseDisownPost getPkgOrBase
      simp only [hnamed]
  | some b =>
      by_cases h : Checked cfg db user b comments confirm
      · have hcalm : ∀ db', Ends none (retryDisown cfg user b now ⟨db', none⟩)
            (pkgbaseDisownInstance cfg db' user b now) := by
          intro db'
          rw [spares_retryDisown (Or.inl rfl) cfg user b now db']
          exact ⟨rfl, rfl, Or.inl rfl⟩
        have hends : Ends none (disownChecked cfg user b comments now db ⟨db, none⟩)
            (pkgbaseDisownInstance cfg
              (if b.maintainerUID ≠ some user.id ∧
                  (comaintainerIDs db b.id).contains (some user.id) = false then
                updateClosureComment cfg db b .orphan comments none else db) user b now) := by
          by_cases hworks : WorksOn db user b
          · rw [disownChecked_own hworks, if_neg fun hnot => not_worksOn_iff.mpr hnot hworks]
            exact hcalm db
          · rw [disownChecked_spared hworks (Or.inl (by simp)),
              if_pos (not_worksOn_iff.mp hworks)]
            exact hcalm _
        rw [run_ends h hnamed hends]
        exact ((disownPost_checked h hnamed next).trans (answer_eq next name _)).symm
      · unfold run pkgbaseDisownPost Aurweb.pkgbaseDisownPost getPkgOrBase
        simp only [hnamed]
        cases hcomment : optionalComment cfg comments with
        | error message => rfl
        | ok u =>
            simp only [raiseHttp]
            by_cases hcred : hasCredential user .pkgbaseDisown
                (b.maintainerUID :: comaintainerIDs db b.id) = true
            swap
            · rw [if_pos (by simpa using hcred), if_pos (by simpa using hcred)]
            by_cases hconfirm : confirm = true
            · exact absurd ⟨hcomment, hcred, hconfirm⟩ h
            · simp [hcred, hconfirm]

theorem commented_frame (cfg : Config) (db : Db) (b : PackageBase) (comments : String) :
    ∃ rows, commented cfg db b comments = { db with packageRequests := rows } :=
  updateClosureComment_frame cfg db b .orphan comments none

theorem verify_commented (cfg : Config) (db : Db) (b : PackageBase) (comments : String) (now : Nat) :
    verifyOrphanRequest cfg (commented cfg db b comments) b now =
      verifyOrphanRequest cfg db b now :=
  verifyOrphanRequest_congr (requestColumns_updateClosureComment cfg db b comments) b

/-- An enforced disowning that a due request allows, without a deadlock. -/
theorem instance_due (h : Enforces cfg db user b comments confirm)
    (hrequests : Table.Numbered (·.id) db.nextID db.packageRequests)
    (hdue : verifyOrphanRequest cfg db b now = true) :
    let o := Aurweb.handleRequest cfg (commented cfg db b comments) user .orphan b none "" none now
    o.1 = .ok () ∧
      pkgbaseDisownInstance cfg (commented cfg db b comments) user b now =
        done (orphan o.2 b.id) := by
  intro o
  obtain ⟨rows, hrows⟩ := commented_frame cfg db b comments
  have hids : (commented cfg db b comments).packageRequests.map (·.id) =
      db.packageRequests.map (·.id) := by
    have hcolumns := congrArg (List.map Prod.fst)
      (requestColumns_updateClosureComment cfg db b comments)
    simpa [commented, requestColumns, List.map_map, Function.comp_def] using hcolumns
  have hnumbered : Table.Numbered (·.id) (commented cfg db b comments).nextID
      (commented cfg db b comments).packageRequests := by
    have hnext : (commented cfg db b comments).nextID = db.nextID := by rw [hrows]
    rw [hnext]
    exact hrequests.of_map_eq hids
  have hok : o.1 = .ok () :=
    handleRequest_ok hnumbered ((verify_commented cfg db b comments now).trans hdue) user
  refine ⟨hok, ?_⟩
  have hco : isComaintainer (commented cfg db b comments) b.id user.id = false := by
    rw [hrows]
    exact h.notComaintainer
  unfold pkgbaseDisownInstance
  rw [if_neg h.notMaintainer, if_neg (by simp [hco]), if_pos h.elevated]
  show o.andThen _ = _
  unfold Outcome.andThen
  rw [hok]

/-- The last transaction has been the victim: the next attempt starts from closed requests. -/
theorem retryDisown_victim (db : Db) (h : Enforces cfg db user b comments confirm)
    (hbases : (db.packageBases.map (·.id)).Nodup) (hb : b ∈ db.packageBases)
    (hstaffed : Staffed db b)
    (hok : (Aurweb.handleRequest cfg db user .orphan b none "" none now).1 = .ok ()) :
    Ends none (retryDisown cfg user b now ⟨db, some .disowning⟩)
      (pkgbaseDisownInstance cfg
        (Aurweb.handleRequest cfg db user .orphan b none "" none now).2 user b now) := by
  have hhandled := spares_handleRequest (v := some .disowning) (by simp) (by simp) cfg user .orphan
    b none "" none now db
  have hwrites : orphan (Aurweb.handleRequest cfg db user .orphan b none "" none now).2 b.id ≠
      (Aurweb.handleRequest cfg db user .orphan b none "" none now).2 := by
    obtain ⟨rows, n, hrows⟩ := handleRequest_frame cfg db user .orphan b none "" none now
    rw [hrows]
    intro heq
    exact (orphan_eq_self_iff { db with packageRequests := rows, nextID := n } hbases
      hb).mp heq hstaffed
  have hfirst : disownFound cfg user b now db ⟨db, some .disowning⟩ =
      (.error deadlock,
        ⟨(Aurweb.handleRequest cfg db user .orphan b none "" none now).2, none⟩) := by
    unfold disownFound
    rw [if_neg h.notMaintainer, if_neg (by simp [h.notComaintainer]), if_pos h.elevated]
    unfold Retry.andThen
    rw [hhandled]
    simp only [hok]
    exact Retry.transaction_victim deadlock Point.disowning
      (fun db => done (orphan db b.id)) (w := ⟨_, some .disowning⟩) rfl hwrites
  have hagain := (spares_disown (Or.inl rfl) cfg user b now).retry
    (settled_disownInstance cfg user b now) 9
    (Aurweb.handleRequest cfg db user .orphan b none "" none now).2
  have hretried : Retry.retry (· == deadlock) (fun w => disownFound cfg user b now w.stored w) 10
      ⟨db, some .disowning⟩ = Retry.retry (· == deadlock)
        (fun w => disownFound cfg user b now w.stored w) 9
        ⟨(Aurweb.handleRequest cfg db user .orphan b none "" none now).2, none⟩ :=
    Retry.retry_of_passing (p := fun w => disownFound cfg user b now w.stored w) hfirst
      (by simp) 9
  unfold retryDisown retryDeadlock
  rw [hretried, hagain]
  exact ⟨rfl, rfl, Or.inl rfl⟩

theorem answer_redirect {next name url : String} {r : Except Raised Unit}
    (h : answer next name r = .redirect url) : r = .ok () := by
  cases r with
  | ok u => rfl
  | error e => cases e <;> cases h

/-- A run without the deadlock goes through, and one with it does not end the same. -/
theorem not_sameEnd (hbases : (db.packageBases.map (·.id)).Nodup)
    (hrequests : Table.Numbered (·.id) db.nextID db.packageRequests)
    (hnamed : baseNamed cfg db name = some b) {point : Point}
    (hlost : Lost cfg db user b comments confirm now point) :
    ¬SameEnd b (run cfg db user name comments confirm next now none)
      (run cfg db user name comments confirm next now (some point)) := by
  intro hsame
  have henforces := hlost.enforces
  have hchecked := henforces.checked
  have hworks := henforces.not_worksOn
  obtain ⟨hok, hinstance⟩ := instance_due henforces hrequests hlost.due
  have hcalm : Ends none (disownChecked cfg user b comments now db ⟨db, none⟩)
      (pkgbaseDisownInstance cfg (commented cfg db b comments) user b now) := by
    rw [disownChecked_spared hworks (Or.inl (by simp)),
      spares_retryDisown (Or.inl rfl) cfg user b now (commented cfg db b comments)]
    exact ⟨rfl, rfl, Or.inl rfl⟩
  rw [run_ends hchecked hnamed hcalm, hinstance] at hsame
  have hsuccess := hsame.succeeds _ rfl
  rcases hlost.point with ⟨rfl, hover⟩ | ⟨rfl, hstaffed⟩
  · rw [run_checked hchecked hnamed, disownChecked_victim hworks hover] at hsuccess
    have hredirect : answer next name (.error deadlock) = .redirect _ := hsuccess
    cases answer_redirect hredirect
  · obtain ⟨rows, hrows⟩ := commented_frame cfg db b comments
    have hhit : Ends none (disownChecked cfg user b comments now db ⟨db, some .disowning⟩)
        (pkgbaseDisownInstance cfg (Aurweb.handleRequest cfg (commented cfg db b comments) user
          .orphan b none "" none now).2 user b now) := by
      have hb := (baseNamed_mem hnamed).1
      rw [disownChecked_spared hworks (Or.inl (by simp))]
      rw [hrows] at hok ⊢
      exact retryDisown_victim { db with packageRequests := rows }
        ⟨henforces.notMaintainer, henforces.notComaintainer, henforces.elevated,
          henforces.confirmed, henforces.comment⟩ hbases hb hstaffed hok
    rw [run_checked hchecked hnamed, hhit.result, hhit.stored] at hsuccess hsame
    have hco : isComaintainer (commented cfg db b comments) b.id user.id = false := by
      rw [hrows]
      exact henforces.notComaintainer
    have hlength := second_attempt hok henforces.notMaintainer hco henforces.elevated
      (answer_redirect hsuccess)
    have hstatuses := congrArg List.length hsame.statuses
    rw [List.length_map, List.length_map, hlength] at hstatuses
    exact absurd hstatuses (Nat.succ_ne_self _)

/-- Every other deadlock comes to nothing. -/
theorem sameEnd_of_not_lost (hbases : (db.packageBases.map (·.id)).Nodup)
    (hnamed : baseNamed cfg db name = some b) {point : Point}
    (hlost : ¬Lost cfg db user b comments confirm now point) :
    SameEnd b (run cfg db user name comments confirm next now none)
      (run cfg db user name comments confirm next now (some point)) := by
  by_cases hchecked : Checked cfg db user b comments confirm
  swap
  · rw [run_unchecked (fun b' hb' => ?_) (some point)]
    · exact SameEnd.refl b _
    · rw [hnamed] at hb'
      obtain rfl := Option.some.inj hb'
      exact hchecked
  have hsame : ∀ {o : Outcome}, Ends none (disownChecked cfg user b comments now db ⟨db, none⟩) o →
      Ends (some point) (disownChecked cfg user b comments now db ⟨db, some point⟩) o →
      SameEnd b (run cfg db user name comments confirm next now none)
        (run cfg db user name comments confirm next now (some point)) := by
    intro o hcalm hhit
    rw [run_ends hchecked hnamed hcalm, run_ends hchecked hnamed hhit]
    exact SameEnd.refl b _
  by_cases hworks : WorksOn db user b
  · refine hsame (o := pkgbaseDisownInstance cfg db user b now) ?_ ?_
    · rw [disownChecked_own hworks]
      exact ends_own hworks cfg now none
    · rw [disownChecked_own hworks]
      exact ends_own hworks cfg now (some point)
  have henforces := hchecked.enforces hworks
  obtain ⟨rows, hrows⟩ := commented_frame cfg db b comments
  by_cases hhit : point = .comments ∧ Overwrites db b comments
  · obtain ⟨rfl, hover⟩ := hhit
    have hundue : verifyOrphanRequest cfg db b now = false := by
      by_contra hdue
      exact hlost ⟨henforces, by simpa using hdue, Or.inl ⟨rfl, hover⟩⟩
    rw [run_none, disownPost_refused henforces hnamed next hundue, run_checked hchecked hnamed,
      disownChecked_victim hworks hover]
    have hcolumns := requestColumns_updateClosureComment cfg db b comments
    refine ⟨?_, ?_, ?_, nofun⟩
    · show _ = ((commented cfg db b comments).packageBase? b.id).bind _
      rw [hrows]
      rfl
    · show _ = comaintainersOf (commented cfg db b comments) b.id
      rw [hrows]
      rfl
    · have hstatuses := congrArg (List.map fun r => (r.1, r.2.2.2.1)) hcolumns
      simpa [requestColumns, List.map_map, Function.comp_def] using hstatuses.symm
  have hspared : some point ≠ some Point.comments ∨ ¬Overwrites db b comments := by
    rw [not_and_or] at hhit
    exact hhit.imp_left fun hne heq => hne (Option.some.inj heq)
  have hb := (baseNamed_mem hnamed).1
  have hends : ∀ {v : Option Point}, (v ≠ some .disowning ∨
      verifyOrphanRequest cfg db b now = false ∨ ¬Staffed db b) →
      Ends v (retryDisown cfg user b now ⟨commented cfg db b comments, v⟩)
        (pkgbaseDisownInstance cfg (commented cfg db b comments) user b now) := by
    intro v hv
    rw [← verify_commented cfg db b comments now] at hv
    rw [hrows] at hv ⊢
    exact ends_enforced { db with packageRequests := rows } hbases hb
      henforces.notMaintainer henforces.notComaintainer henforces.elevated hv
  refine hsame (o := pkgbaseDisownInstance cfg (commented cfg db b comments) user b now) ?_ ?_
  · rw [disownChecked_spared hworks (Or.inl (by simp))]
    exact hends (Or.inl (by simp))
  · rw [disownChecked_spared hworks hspared]
    apply hends
    by_cases hlast : point = .disowning
    · right
      by_contra hboth
      rw [not_or, not_not] at hboth
      exact hlost ⟨henforces, by simpa using hboth.1, Or.inr ⟨hlast, hboth.2⟩⟩
    · exact Or.inl fun heq => hlast (Option.some.inj heq)

end

/--
**A web disown and a deadlock.**  The retry ends as a run without the deadlock, wherever that
comes, save for an enforced disowning that a due request allows: it does not get over the loss
of the transaction that writes its comment, which nobody retries, nor over that of its last
one, since it has closed by then the requests that the retry asks for.
-/
theorem sameEnd_iff (cfg : Config) (db : Db) (user : User) (name comments : String)
    (confirm : Bool) (next : String) (now : Nat) (point : Point)
    (hbases : (db.packageBases.map (·.id)).Nodup)
    (hrequests : Table.Numbered (·.id) db.nextID db.packageRequests) :
    (∀ b, baseNamed cfg db name = some b →
        SameEnd b (run cfg db user name comments confirm next now none)
          (run cfg db user name comments confirm next now (some point))) ↔
      ∀ b, baseNamed cfg db name = some b →
        ¬Lost cfg db user b comments confirm now point := by
  constructor
  · intro h b hnamed hlost
    exact not_sameEnd hbases hrequests hnamed hlost (h b hnamed)
  · intro h b hnamed
    exact sameEnd_of_not_lost hbases hnamed (h b hnamed)

theorem sameEnd_iff_bob :
    (∀ b, baseNamed siteConfig sharedSite "foo" = some b →
        SameEnd b
          (run siteConfig sharedSite (account 2 .packageMaintainer "bob") "foo" "" true ""
            9900000 none)
          (run siteConfig sharedSite (account 2 .packageMaintainer "bob") "foo" "" true ""
            9900000 (some .closures))) ↔
      ∀ b, baseNamed siteConfig sharedSite "foo" = some b →
        ¬Lost siteConfig sharedSite (account 2 .packageMaintainer "bob") b "" true 9900000
          .closures :=
  sameEnd_iff siteConfig sharedSite (account 2 .packageMaintainer "bob") "foo" "" true "" 9900000
    .closures (by decide +kernel) ⟨by decide +kernel, by decide +kernel⟩

/-- `bob` takes `foo` from `carol`, as `alice` has asked two weeks before, and the last
transaction deadlocks: he is told that no request is due, and hers is accepted. -/
theorem not_sameEnd_bob :
    ¬∀ b, baseNamed siteConfig sharedSite "foo" = some b →
      SameEnd b
        (run siteConfig sharedSite (account 2 .packageMaintainer "bob") "foo" "" true ""
          9900000 none)
        (run siteConfig sharedSite (account 2 .packageMaintainer "bob") "foo" "" true ""
          9900000 (some .disowning)) := by
  intro h
  obtain ⟨b, hnamed⟩ : ∃ b, baseNamed siteConfig sharedSite "foo" = some b :=
    Option.isSome_iff_exists.mp (by decide +kernel)
  have hcalm : (run siteConfig sharedSite (account 2 .packageMaintainer "bob") "foo" "" true ""
      9900000 none).1 = .redirect "/pkgbase/foo" := by
    decide +kernel
  have hhit : (run siteConfig sharedSite (account 2 .packageMaintainer "bob") "foo" "" true ""
      9900000 (some .disowning)).1 ≠ .redirect "/pkgbase/foo" := by
    decide +kernel
  exact hhit ((h b hnamed).succeeds _ hcalm)

end Aurweb.DisownRetry
