/-
What most operations leave alone.

Packages, comments and notifications change in few places, and who submitted a base changes
nowhere once it is there.  `Untouched` is what every other function does to these columns:
nothing.  It is shown for one function after the other, and composes.
-/
import Aurweb.Proofs.SiteWrites

namespace Aurweb

/-- Comments, notifications, packages, submitters and accounts are the same. -/
structure Untouched (db db' : Db) : Prop where
  comments : db'.packageComments = db.packageComments
  notifications : db'.packageNotifications = db.packageNotifications
  packages : db'.packages = db.packages
  submitters : (db'.packageBases.map fun b => (b.id, b.submitterUID)) =
    db.packageBases.map fun b => (b.id, b.submitterUID)
  users : db'.users.map (·.id) = db.users.map (·.id)
  next : db.nextID ≤ db'.nextID

namespace Untouched

theorem refl (db : Db) : Untouched db db := ⟨rfl, rfl, rfl, rfl, rfl, Nat.le_refl _⟩

theorem trans {db₁ db₂ db₃ : Db} (h : Untouched db₁ db₂) (h' : Untouched db₂ db₃) :
    Untouched db₁ db₃ where
  comments := h'.comments.trans h.comments
  notifications := h'.notifications.trans h.notifications
  packages := h'.packages.trans h.packages
  submitters := h'.submitters.trans h.submitters
  users := h'.users.trans h.users
  next := Nat.le_trans h.next h'.next

theorem updatePackageBase (db : Db) (id : Nat) {f : PackageBase → PackageBase}
    (hf : ∀ b, (f b).id = b.id ∧ (f b).submitterUID = b.submitterUID) :
    Untouched db (db.updatePackageBase id f) :=
  { refl db with
    submitters := Table.map_update (fun b => by rw [(hf b).1, (hf b).2]) db.packageBases }

theorem setMaintainer (db : Db) (id : Nat) (uid : Option Nat) :
    Untouched db (setMaintainer db id uid) :=
  updatePackageBase db id fun _ => ⟨rfl, rfl⟩

theorem requests (db : Db) (rows : List PackageRequest) :
    Untouched db { db with packageRequests := rows } :=
  ⟨rfl, rfl, rfl, rfl, rfl, Nat.le_refl _⟩

theorem insertRequest (db : Db) (r : PackageRequest) : Untouched db (insertRequest db r) :=
  ⟨rfl, rfl, rfl, rfl, rfl, Nat.le_succ _⟩

theorem comaintainers (db : Db) (rows : List PackageComaintainer) :
    Untouched db { db with packageComaintainers := rows } :=
  ⟨rfl, rfl, rfl, rfl, rfl, Nat.le_refl _⟩

theorem keywords (db : Db) (rows : List PackageKeyword) :
    Untouched db { db with packageKeywords := rows } :=
  ⟨rfl, rfl, rfl, rfl, rfl, Nat.le_refl _⟩

/-- Votes change with the counter of their base. -/
theorem ballot (db : Db) (votes : List PackageVote) (id : Nat) {f : PackageBase → PackageBase}
    (hf : ∀ b, (f b).id = b.id ∧ (f b).submitterUID = b.submitterUID) :
    Untouched db (Db.updatePackageBase { db with packageVotes := votes } id f) :=
  { refl db with
    submitters := Table.map_update (fun b => by rw [(hf b).1, (hf b).2]) db.packageBases }

theorem popupdate (db : Db) (id : Nat) : Untouched db (popupdate db id) :=
  updatePackageBase db id fun _ => ⟨rfl, rfl⟩

theorem foldl {α : Type} {action : Db → α → Db} (h : ∀ db a, Untouched db (action db a)) :
    ∀ (as : List α) (db : Db), Untouched db (as.foldl action db)
  | [], db => refl db
  | a :: as, db => (h db a).trans (foldl h as _)

end Untouched

theorem UsersOnly.untouched {db db' : Db} (h : UsersOnly db db') : Untouched db db' := by
  have hids : db'.users.map (·.id) = db.users.map (·.id) := by
    have hfst := congrArg (List.map Prod.fst) h.2
    simpa [Db.userKeys, List.map_map, Function.comp_def] using hfst
  rw [h.1]
  exact { Untouched.refl db with users := hids }

section

variable {cfg : Config} {db : Db} {user : User}

/-! ### Requests -/

theorem updateClosureComment_untouched (pkgbase : PackageBase) (reqType : RequestType)
    (comments : String) (target : Option PackageBase) :
    Untouched db (updateClosureComment cfg db pkgbase reqType comments target) := by
  unfold updateClosureComment
  split
  · exact .refl db
  · exact .requests db _

theorem retryClosures_untouched (pkgbase : PackageBase) (target : Option PackageBase)
    (toAccept toReject : List Nat) (now : Nat) :
    Untouched db (retryClosures db user pkgbase target toAccept toReject now).2 := by
  unfold retryClosures
  simp only
  split
  · exact .refl db
  · exact .requests db _

theorem handleRequest_untouched (reqType : RequestType) (pkgbase : PackageBase)
    (target : Option PackageBase) (comments : String) (acceptIDs : Option (List Nat)) (now : Nat) :
    Untouched db
      (handleRequest cfg db user reqType pkgbase target comments acceptIDs now).2 := by
  rcases handleRequest_cases cfg db user reqType pkgbase target comments acceptIDs now with
    ⟨e, -, he⟩ | ⟨mergeInto, -, heq⟩ | heq
  · rw [he]
    exact .refl db
  · rw [heq]
    exact (Untouched.insertRequest db _).trans (retryClosures_untouched _ _ _ _ _)
  · rw [heq]
    exact retryClosures_untouched _ _ _ _ _

theorem requestClosePost_untouched (id : Nat) (comments : String) (now : Nat) :
    Untouched db (requestClosePost db user id comments now).2 := by
  unfold requestClosePost
  split
  · exact .refl db
  split
  · exact .refl db
  · exact .requests db _

/-! ### Ownership -/

theorem removeComaintainers_untouched (id : Nat) (usernames : List String) :
    Untouched db (removeComaintainers cfg db id usernames) := .comaintainers db _

theorem addComaintainers_untouched {db' : Db} {pkgbase : PackageBase} {usernames : List String}
    (h : addComaintainers cfg db pkgbase usernames = .ok db') : Untouched db db' := by
  obtain ⟨rfl, -⟩ := addComaintainers_ok h
  refine Untouched.foldl (fun db u => ?_) _ db
  unfold addComaintainer
  split
  · exact .refl db
  · exact .comaintainers db _

theorem stepDown_untouched (id : Nat) : Untouched db (stepDown db id) := by
  unfold stepDown
  split
  · exact (Untouched.setMaintainer db id _).trans (.comaintainers _ _)
  · exact .setMaintainer db id none

theorem pkgbaseDisownInstance_untouched (b : PackageBase) (now : Nat) :
    Untouched db (pkgbaseDisownInstance cfg db user b now).2 := by
  unfold pkgbaseDisownInstance
  split
  · exact stepDown_untouched b.id
  split
  · exact .comaintainers db _
  split
  · have hhandled : Untouched db (handleRequest cfg db user .orphan b none "" none now).2 :=
      handleRequest_untouched _ _ _ _ _ _
    refine Outcome.andThen_of hhandled fun _ => hhandled.trans ?_
    exact (Untouched.setMaintainer _ b.id none).trans (.comaintainers _ _)
  · exact .refl db

theorem pkgbaseAdoptInstance_untouched (b : PackageBase) (pkgreq : Option PackageRequest)
    (now : Nat) : Untouched db (pkgbaseAdoptInstance cfg db user b pkgreq now).2 := by
  unfold pkgbaseAdoptInstance
  split
  · exact (Untouched.setMaintainer db b.id _).trans (handleRequest_untouched _ _ _ _ _ _)
  split
  · exact .refl db
  · exact .insertRequest db _

theorem pkgbaseUnflagInstance_untouched (b : PackageBase) :
    Untouched db (pkgbaseUnflagInstance db user b) := by
  unfold pkgbaseUnflagInstance
  split
  · exact .updatePackageBase db b.id fun _ => ⟨rfl, rfl⟩
  · exact .refl db

/-! ### Forms -/

theorem pkgbaseKeywords_untouched (name : String) (words : List String) :
    Untouched db (pkgbaseKeywords cfg db user name words).2 := by
  refine getPkgOrBase_of (.refl db) fun b _ _ _ => ?_
  exact unless_of (.refl db) fun _ => .keywords db _

theorem pkgbaseFlagPost_untouched (name comments : String) (now : Nat) :
    Untouched db (pkgbaseFlagPost cfg db user name comments now).2 := by
  refine getPkgOrBase_of (.refl db) fun b _ _ _ => ?_
  split
  · exact .refl db
  refine raiseHttp_of (.refl db) fun _ => ?_
  split
  · exact .updatePackageBase db b.id fun _ => ⟨rfl, rfl⟩
  · exact .refl db

theorem pkgbaseVote_untouched (name : String) (now : Nat) :
    Untouched db (pkgbaseVote cfg db user name now).2 := by
  refine getPkgOrBase_of (.refl db) fun b _ _ _ => ?_
  split
  · exact .ballot db _ b.id fun _ => ⟨rfl, rfl⟩
  · exact .refl db

theorem pkgbaseUnvote_untouched (name : String) :
    Untouched db (pkgbaseUnvote cfg db user name).2 := by
  refine getPkgOrBase_of (.refl db) fun b _ _ _ => ?_
  split
  · exact .ballot db _ b.id fun _ => ⟨rfl, rfl⟩
  · exact .refl db

theorem pkgbaseDisownPost_untouched (name comments : String) (confirm : Bool) (next : String)
    (now : Nat) :
    Untouched db (pkgbaseDisownPost cfg db user name comments confirm next now).2 := by
  refine getPkgOrBase_of (.refl db) fun b _ _ _ => ?_
  refine raiseHttp_of (.refl db) fun _ => ?_
  simp only
  split
  · exact .refl db
  split
  · exact .refl db
  generalize hdb : (if b.maintainerUID ≠ some user.id ∧
    (comaintainerIDs db b.id).contains (some user.id) = false then
    updateClosureComment cfg db b .orphan comments none else db) = commented
  have hcommented : Untouched db commented := by
    rw [← hdb]
    split
    · exact updateClosureComment_untouched _ _ _ _
    · exact .refl db
  have hdisowned : Untouched db (pkgbaseDisownInstance cfg commented user b now).2 :=
    hcommented.trans (pkgbaseDisownInstance_untouched b now)
  split
  · rename_i heq
    rw [heq] at hdisowned
    exact hdisowned
  · rw [Outcome.response_snd]
    exact hdisowned

theorem pkgbaseAdoptPost_untouched (name next : String) (via now : Nat) :
    Untouched db (pkgbaseAdoptPost cfg db user name next via now).2 := by
  refine getPkgOrBase_of (.refl db) fun b _ _ _ => ?_
  simp only
  split
  · rw [Outcome.response_snd]
    exact pkgbaseAdoptInstance_untouched _ _ _
  · exact .refl db

theorem pkgbaseComaintainersPost_untouched (name : String) (users : List String) :
    Untouched db (pkgbaseComaintainersPost cfg db user name users).2 := by
  refine getPkgOrBase_of (.refl db) fun b _ _ _ => ?_
  refine unless_of (.refl db) fun _ => ?_
  simp only
  split
  · exact removeComaintainers_untouched _ _
  · rename_i hadded
    exact (removeComaintainers_untouched _ _).trans (addComaintainers_untouched hadded)

theorem packagesUnflag_untouched (ids : List Nat) :
    Untouched db (packagesUnflag db user ids).2 := by
  unfold packagesUnflag
  simp only
  split
  · exact .refl db
  · exact .foldl (fun _ b => pkgbaseUnflagInstance_untouched b) _ db

theorem forEachBase_untouched {action : Db → PackageBase → Outcome}
    (h : ∀ db b, Untouched db (action db b).2) :
    ∀ (bases : List PackageBase) (db : Db), Untouched db (forEachBase action bases db).2
  | [], db => .refl db
  | b :: bases, db =>
      Outcome.andThen_of (h db b) fun _ => (h db b).trans (forEachBase_untouched h bases _)

theorem packagesAdopt_untouched (ids : List Nat) (confirm : Bool) (now : Nat) :
    Untouched db (packagesAdopt cfg db user ids confirm now).2 := by
  unfold packagesAdopt
  simp only
  split
  · exact .refl db
  split
  · exact .refl db
  split
  · exact .refl db
  · rw [Outcome.response_snd]
    exact forEachBase_untouched (fun _ b => pkgbaseAdoptInstance_untouched b none now) _ db

theorem disownAll_untouched (now : Nat) :
    ∀ (bases : List PackageBase) (db : Db), Untouched db (disownAll cfg user now bases db).2
  | [], db => .refl db
  | b :: bases, db => by
      have hfirst : Untouched db (pkgbaseDisownInstance cfg db user b now).2 :=
        pkgbaseDisownInstance_untouched b now
      have hnext := hfirst.trans (disownAll_untouched now bases _)
      unfold disownAll
      cases hr : pkgbaseDisownInstance cfg db user b now with
      | mk outcome after =>
          rw [hr] at hnext hfirst
          rcases outcome with (⟨status, detail⟩ | message | exception) | u
          · exact hfirst
          · exact hnext
          · exact hfirst
          · exact hnext

theorem packagesDisown_untouched (ids : List Nat) (confirm : Bool) (now : Nat) :
    Untouched db (packagesDisown cfg db user ids confirm now).2 := by
  have hall : Untouched db (disownAll cfg user now (selectedBases db ids) db).2 :=
    disownAll_untouched now _ db
  unfold packagesDisown
  simp only
  split
  · exact .refl db
  split
  · exact .refl db
  split
  · exact .refl db
  split
  · rename_i heq
    rw [heq] at hall
    exact hall
  · rename_i heq
    rw [heq] at hall
    exact hall
  · rename_i heq
    rw [heq] at hall
    rw [Outcome.response_snd]
    exact hall

theorem proposalPost_untouched (proposal : Nat) (decision : String) (now : Nat) :
    Untouched db
      (Proposals.packageMaintainerProposalPost db user proposal decision now).2 := by
  unfold Proposals.packageMaintainerProposalPost
  split
  · exact .refl db
  simp only
  unfold Proposals.proposalCommit
  split
  · exact ⟨rfl, rfl, rfl, rfl, rfl, Nat.le_refl _⟩
  · exact .refl db

theorem termsOfServicePost_untouched (uid : Nat) (accept : Bool) :
    Untouched db (Terms.termsOfServicePost db uid accept).2 := by
  unfold Terms.termsOfServicePost
  split
  · exact .refl db
  split
  · exact .refl db
  rename_i haccepted
  unfold Terms.acceptTerms at haccepted
  split at haccepted
  · cases haccepted
  split at haccepted
  · cases haccepted
  · rw [← Except.ok.inj haccepted]
    exact ⟨rfl, rfl, rfl, rfl, rfl, Nat.le_refl _⟩

theorem accountEdit_untouched (editorID uid : Nat) (username : String) (form : AccountForm)
    (token : String) (now : Nat) :
    Untouched db (accountEdit cfg db editorID uid username form token now) := by
  unfold accountEdit
  split
  · split
    · exact .refl db
    · have hedited : Untouched db (accountEditPost cfg db editorID uid form token now) :=
        (accountEditPost_usersOnly editorID uid form token now).untouched
      refine hedited.trans { Untouched.refl _ with users := ?_ }
      exact Table.map_update (f := fun u : User => { u with username := username })
        (fun _ => rfl) _
  · exact .refl db

/-! ### Sessions -/

namespace GitServe

theorem pkgbaseAdopt_untouched (pkgbase name : String) (now : Nat) :
    Untouched db (pkgbaseAdopt cfg db pkgbase name now).2 := by
  refine withPkgbase_of (.refl db) fun b _ _ _ => ?_
  refine withUser_of (.refl db) fun u _ _ => ?_
  split
  · exact .refl db
  split
  · exact .refl db
  · exact .insertRequest db _

theorem pkgbaseSetComaintainers_untouched (pkgbase : String) (userlist : List String)
    (name : String) (privileged : Bool) :
    Untouched db (pkgbaseSetComaintainers cfg db pkgbase userlist name privileged).2 := by
  obtain ⟨rows, hrows⟩ := setComaintainers_frame cfg db pkgbase userlist name privileged
  rw [hrows]
  exact .comaintainers db rows

theorem pkgbaseDisown_untouched (pkgbase name : String) (privileged : Bool) (now : Nat) :
    Untouched db (pkgbaseDisown cfg db pkgbase name privileged now).2 := by
  refine withPkgbase_of (.refl db) fun b _ _ _ => ?_
  simp only
  split
  · exact .refl db
  have hclosed : Untouched db ((pkgreqByPkgbase db b .orphan).foldl (fun db reqid =>
      pkgreqClose db reqid .accepted s!"The user {name} disowned the package." now) db) :=
    .foldl (fun db _ => .requests db _) _ db
  generalize (pkgreqByPkgbase db b .orphan).foldl (fun db reqid =>
    pkgreqClose db reqid .accepted s!"The user {name} disowned the package." now) db = closed
    at hclosed ⊢
  generalize (if hasFullAccess cfg db pkgbase name = true then
    getComaintainers cfg closed pkgbase else []) = comaintainers
  split
  · exact hclosed
  have hstaffed : Untouched db
      (pkgbaseSetComaintainers cfg closed pkgbase comaintainers.tail name privileged).2 :=
    hclosed.trans (pkgbaseSetComaintainers_untouched pkgbase _ name privileged)
  generalize pkgbaseSetComaintainers cfg closed pkgbase comaintainers.tail name privileged =
    staffed at hstaffed ⊢
  obtain ⟨outcome, after⟩ := staffed
  cases outcome with
  | error e => exact hstaffed
  | ok u =>
      have hreleased : ∀ uid, Untouched db (setMaintainer after b.id uid) := fun uid =>
        hstaffed.trans (.setMaintainer after b.id uid)
      exact withUser_of (hreleased _) fun _ _ _ => hreleased _

theorem pkgbaseFlag_untouched (pkgbase name comment : String) (now : Nat) :
    Untouched db (pkgbaseFlag cfg db pkgbase name comment now).2 := by
  refine withPkgbase_of (.refl db) fun b _ _ _ => ?_
  split
  · exact .refl db
  refine withUser_of (.refl db) fun u _ _ => ?_
  split
  · exact .refl db
  refine .updatePackageBase db b.id fun b => ?_
  split <;> exact ⟨rfl, rfl⟩

theorem pkgbaseUnflag_untouched (pkgbase name : String) :
    Untouched db (pkgbaseUnflag cfg db pkgbase name).2 := by
  refine withPkgbase_of (.refl db) fun b _ _ _ => ?_
  refine withUser_of (.refl db) fun u _ _ => ?_
  split
  · exact .updatePackageBase db b.id fun _ => ⟨rfl, rfl⟩
  · refine .updatePackageBase db b.id fun b => ?_
    split <;> exact ⟨rfl, rfl⟩

theorem pkgbaseVote_untouched (pkgbase name : String) (now : Nat) :
    Untouched db (pkgbaseVote cfg db pkgbase name now).2 := by
  refine withPkgbase_of (.refl db) fun b _ _ _ => ?_
  refine withUser_of (.refl db) fun u _ _ => ?_
  split
  · exact .refl db
  unfold commitVote
  split
  · exact .refl db
  · exact .ballot db _ b.id fun _ => ⟨rfl, rfl⟩

theorem pkgbaseUnvote_untouched (pkgbase name : String) :
    Untouched db (pkgbaseUnvote cfg db pkgbase name).2 := by
  refine withPkgbase_of (.refl db) fun b _ _ _ => ?_
  refine withUser_of (.refl db) fun u _ _ => ?_
  split
  · exact .refl db
  unfold commitUnvote
  split
  · exact .refl db
  · exact .ballot db _ b.id fun _ => ⟨rfl, rfl⟩

theorem pkgbaseSetKeywords_untouched (pkgbase : String) (words : List String) :
    Untouched db (pkgbaseSetKeywords cfg db pkgbase words).2 := by
  refine withPkgbase_of (.refl db) fun b _ _ _ => ?_
  split
  · exact .refl db
  · exact .keywords db _

theorem dispatch_untouched (s : Session) (command : Command) :
    Untouched db (dispatch cfg db s command).2 := by
  cases command with
  | uploadPack path =>
      simp only [dispatch]
      split
      · exact .refl db
      split <;> exact .refl db
  | receivePack path =>
      simp only [dispatch]
      split
      · exact .refl db
      split
      · exact .refl db
      split <;> exact .refl db
  | setKeywords pkgbase words => exact pkgbaseSetKeywords_untouched pkgbase words
  | listRepos => exact withUser_of (.refl db) fun _ _ _ => .refl db
  | restore pkgbase =>
      simp only [dispatch]
      unfold validatePkgbase
      split
      · exact .refl db
      split
      · exact .refl db
      · exact withUser_of (.refl db) fun _ _ _ => .refl db
  | adopt pkgbase => exact pkgbaseAdopt_untouched pkgbase s.user s.now
  | disown pkgbase => exact pkgbaseDisown_untouched pkgbase s.user s.privileged s.now
  | flag pkgbase comment => exact pkgbaseFlag_untouched pkgbase s.user comment s.now
  | unflag pkgbase => exact pkgbaseUnflag_untouched pkgbase s.user
  | vote pkgbase => exact pkgbaseVote_untouched pkgbase s.user s.now
  | unvote pkgbase => exact pkgbaseUnvote_untouched pkgbase s.user
  | setComaintainers pkgbase users =>
      exact pkgbaseSetComaintainers_untouched pkgbase users s.user s.privileged
  | help => exact .refl db

/-- What a session does itself, before another program takes over. -/
theorem serve_untouched (s : Session) (action : String) (args : List String) :
    Untouched db (serve cfg db s action args).2 := by
  have hlogged : Untouched db (logSSHLogin cfg db s) := (logSSHLogin_usersOnly cfg db s).untouched
  rcases serve_cases cfg db s action args with ⟨e, he⟩ | ⟨e, he⟩ | ⟨command, -, he⟩
  · rw [he]
    exact .refl db
  · rw [he]
    exact hlogged
  · rw [he]
    exact hlogged.trans (dispatch_untouched s command)

end GitServe

end

end Aurweb
