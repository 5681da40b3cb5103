/-
Who said what.

A comment is a row with its author and its text.  Whatever else is done to it, its text is
written twice in the code: when it is posted, and when its author edits it.  `Discusses` is what
an operation does to the comments, given what is said in it; it is shown for every function, and
a run is read backwards from a comment to the form its text was posted with.
-/
import Aurweb.Proofs.Listed

namespace Aurweb

/-! ### What is said -/

/-- The form is a comment with this id and text, or an edit of one. -/
def Form.Tells (db : Db) (id : Nat) (text : String) : Form → Prop
  | .comment _ posted _ => id = db.nextID ∧ text = posted
  | .commentEdit _ id' posted _ _ _ => id = id' ∧ text = posted
  | _ => False

/-- The operation is such a form, posted by the account. -/
def Op.Tells (db : Db) (uid id : Nat) (text : String) : Op → Prop
  | .post uid' _ form => uid' = uid ∧ form.Tells db id text
  | _ => False

/-- A comment keeps its author or loses them, and only the author changes what it says. -/
structure Edited (told : Nat → Nat → String → Prop) (c c' : PackageComment) : Prop where
  id : c'.id = c.id
  user : c'.usersID = c.usersID ∨ c'.usersID = none
  comments : c'.comments = c.comments ∨
    ∃ uid, c.usersID = some uid ∧ told uid c.id c'.comments

/-- A comment that is new, by whoever posts it. -/
def Posted (told : Nat → Nat → String → Prop) (c : PackageComment) : Prop :=
  ∀ uid, c.usersID = some uid → told uid c.id c.comments

/-- What an operation does to the comments, and that it keeps the schema's promises. -/
structure Discusses (cfg : Config) (told : Nat → Nat → String → Prop) (db db' : Db) : Prop where
  comments : Table.Evolves (Edited told) (Posted told) db.packageComments db'.packageComments
  listed : Listed cfg db → Listed cfg db'
  next : db.nextID ≤ db'.nextID

section

variable {cfg : Config} {told : Nat → Nat → String → Prop} {db db' : Db} {user : User}

theorem Edited.refl (c : PackageComment) : Edited told c c := ⟨rfl, Or.inl rfl, Or.inl rfl⟩

theorem Edited.author {c c' : PackageComment} (h : Edited told c c') {uid : Nat}
    (huid : c'.usersID = some uid) : c.usersID = some uid := by
  rcases h.user with heq | hnone
  · rw [← heq]
    exact huid
  · rw [hnone] at huid
    cases huid

theorem Edited.trans {c₁ c₂ c₃ : PackageComment} (h : Edited told c₁ c₂)
    (h' : Edited told c₂ c₃) : Edited told c₁ c₃ where
  id := h'.id.trans h.id
  user := by
    rcases h'.user with heq | hnone
    · rw [heq]
      exact h.user
    · exact Or.inr hnone
  comments := by
    rcases h'.comments with heq | ⟨uid, huid, htold⟩
    · rw [heq]
      exact h.comments
    · exact Or.inr ⟨uid, h.author huid, h.id ▸ htold⟩

theorem Posted.edited {c c' : PackageComment} (hc : Posted told c) (h : Edited told c c') :
    Posted told c' := by
  intro uid huid
  have hauthor : c.usersID = some uid := h.author huid
  rw [h.id]
  rcases h.comments with heq | ⟨uid', huid', htold⟩
  · rw [heq]
    exact hc uid hauthor
  · obtain rfl := Option.some.inj (hauthor.symm.trans huid')
    exact htold

namespace Discusses

theorem of_untouched (h : Untouched db db') : Discusses cfg told db db' where
  comments := by
    rw [h.comments]
    exact ⟨_, _, [], List.Sublist.refl _, Table.forall₂_refl Edited.refl _, by simp, by simp⟩
  listed hlisted := hlisted.of_untouched h
  next := h.next

theorem refl (db : Db) : Discusses cfg told db db := of_untouched (.refl db)

theorem trans {db₁ db₂ db₃ : Db} (h : Discusses cfg told db₁ db₂)
    (h' : Discusses cfg told db₂ db₃) : Discusses cfg told db₁ db₃ where
  comments := h.comments.trans Edited.trans Posted.edited h'.comments
  listed hlisted := h'.listed (h.listed hlisted)
  next := Nat.le_trans h.next h'.next

/-- Comments are changed in place. -/
theorem update {p : PackageComment → Bool} {f : PackageComment → PackageComment}
    (h : ∀ c ∈ db.packageComments, p c = true → Edited told c (f c)) (hid : ∀ c, (f c).id = c.id) :
    Discusses cfg told db
      { db with packageComments := Table.update p f db.packageComments } where
  comments := ⟨_, _, [], List.Sublist.refl _, Table.forall₂_update Edited.refl h, by simp, by simp⟩
  listed hlisted := hlisted.updateComments hid
  next := Nat.le_refl _

/-- No comment is touched, and ids are only counted up. -/
theorem of_comments (hcomments : db'.packageComments = db.packageComments)
    (hlisted : Listed cfg db → Listed cfg db') (hnext : db.nextID ≤ db'.nextID) :
    Discusses cfg told db db' where
  comments := by
    have hsame : Discusses cfg told db db := refl db
    rw [hcomments]
    exact hsame.comments
  listed := hlisted
  next := hnext

theorem deletePackageBase (db : Db) (id : Nat) :
    Discusses cfg told db (db.deletePackageBase id) where
  comments := Table.Evolves.delete Edited.refl _ _
  listed hlisted := hlisted.deletePackageBase id
  next := Nat.le_refl _

theorem retryMerge (db : Db) (pkgbase target : PackageBase) :
    Discusses cfg told db (retryMerge db pkgbase target) := by
  have hcomments : Discusses cfg told db { db with
      packageComments := Table.update (·.packageBaseID == pkgbase.id)
        (fun c => { c with packageBaseID := target.id }) db.packageComments } :=
    update (fun _ _ _ => ⟨rfl, Or.inl rfl, Or.inl rfl⟩) fun _ => rfl
  have hmoved : Discusses cfg told db (moveRows db pkgbase target) :=
    ⟨hcomments.comments, fun hlisted => hlisted.moveRows pkgbase target, Nat.le_refl _⟩
  exact (hmoved.trans (of_untouched (.popupdate _ target.id))).trans (deletePackageBase _ _)

theorem deleteUser (db : Db) (uid : Nat) : Discusses cfg told db (db.deleteUser uid) where
  comments := by
    refine ⟨_, _, [], Table.delete_sublist (·.delUsersID == some uid) db.packageComments, ?_,
      (List.append_nil (db.deleteUser uid).packageComments).symm, by simp⟩
    refine List.forall₂_map_right_iff.mpr (List.forall₂_same.mpr fun c _ => ⟨rfl, ?_, Or.inl rfl⟩)
    simp only [Db.setNull]
    split
    · exact Or.inr rfl
    · exact Or.inl rfl
  listed hlisted := hlisted.deleteUser uid
  next := Nat.le_refl _

theorem foldl {α : Type} {action : Db → α → Db} (h : ∀ db a, Discusses cfg told db (action db a)) :
    ∀ (as : List α) (db : Db), Discusses cfg told db (as.foldl action db)
  | [], db => refl db
  | a :: as, db => (h db a).trans (foldl h as _)

end Discusses

/-! ### Notifications -/

/-- Nobody is notified twice. -/
theorem notify_discusses (baseID uid : Nat) (enable : Bool) :
    Discusses cfg told db
      (if enable && !notified db baseID uid then insertNotification db baseID uid else db) := by
  split
  · rename_i hnew
    simp only [Bool.and_eq_true, Bool.not_eq_true'] at hnew
    exact .of_comments rfl (fun hlisted => hlisted.notify hnew.2) (Nat.le_refl _)
  · exact .refl db

theorem pkgbaseUnnotifyInstance_discusses (b : PackageBase) :
    Discusses cfg told db (pkgbaseUnnotifyInstance db user b) := by
  unfold pkgbaseUnnotifyInstance
  split
  · exact .of_comments rfl (fun hlisted => hlisted.unnotify _) (Nat.le_refl _)
  · exact .refl db

/-! ### Comments -/

theorem pkgbaseCommentsPost_discusses (name comment : String) (enableNotifications : Bool)
    (htold : told user.id db.nextID comment) :
    Discusses cfg told db
      (pkgbaseCommentsPost cfg db user name comment enableNotifications).2 := by
  refine getPkgOrBase_of (.refl db) fun b _ _ _ => ?_
  refine raiseHttp_of (.refl db) fun _ => ?_
  have hposted : Discusses cfg told db { db with
      packageComments := db.packageComments ++ [
        { id := db.nextID, packageBaseID := b.id, usersID := some user.id, comments := comment
          editedUsersID := none, delUsersID := none }]
      nextID := db.nextID + 1 } := by
    refine ⟨?_, fun hlisted => hlisted.comment rfl, Nat.le_succ _⟩
    refine ⟨_, _, [_], List.Sublist.refl _, Table.forall₂_refl Edited.refl _, rfl, ?_⟩
    intro c hc uid huid
    rw [List.mem_singleton.mp hc] at huid ⊢
    rw [← Option.some.inj huid]
    exact htold
  exact hposted.trans (notify_discusses b.id user.id enableNotifications)

/-- There is one comment with an id, so it is the author's that is changed. -/
theorem pkgbaseCommentPost_discusses (hlisted : Listed cfg db) (name : String) (id : Nat)
    (comment : String) (enableNotifications cancel : Bool) (next : String)
    (htold : told user.id id comment) :
    Discusses cfg told db
      (pkgbaseCommentPost cfg db user name id comment enableNotifications cancel next).2 := by
  unfold pkgbaseCommentPost
  split
  · exact .refl db
  refine getPkgOrBase_of (.refl db) fun b _ _ _ => ?_
  unfold getPkgbaseComment
  split
  · exact .refl db
  rename_i row hfind
  refine raiseHttp_of (.refl db) fun _ => ?_
  split
  · exact .refl db
  rename_i hauthor
  simp only
  refine Discusses.trans ?_ (notify_discusses b.id user.id enableNotifications)
  split
  · exact .refl db
  refine .update (fun c hc hid => ?_) fun _ => rfl
  have hrow : row ∈ db.packageComments ∧ row.id = id := by
    refine ⟨List.mem_of_find?_eq_some hfind, ?_⟩
    have hcond := List.find?_some hfind
    simp only [Bool.and_eq_true, beq_iff_eq] at hcond
    exact hcond.2
  obtain rfl : c = row :=
    hlisted.comments.eq_of_key hc hrow.1 ((beq_iff_eq.mp hid).trans hrow.2.symm)
  refine ⟨rfl, Or.inl rfl, Or.inr ⟨user.id, by simpa using hauthor, ?_⟩⟩
  rw [hrow.2]
  exact htold

theorem setDeleter_discusses (credential : Credential) (name : String) (id : Nat)
    (deleter : Option Nat) (detail next : String) :
    Discusses cfg told db
      (setDeleter cfg db user credential name id deleter detail next).2 := by
  refine getPkgOrBase_of (.refl db) fun b _ _ _ => ?_
  refine getPkgbaseComment_of (.refl db) fun row => ?_
  refine unless_of (.refl db) fun _ => ?_
  exact .update (fun _ _ _ => ⟨rfl, Or.inl rfl, Or.inl rfl⟩) fun _ => rfl

/-! ### Deletions -/

theorem pkgbaseDeleteInstance_discusses (b : PackageBase) (comments : String) (now : Nat) :
    Discusses cfg told db (pkgbaseDeleteInstance cfg db user b comments now).2 := by
  have hhandled : Discusses cfg told db
      (handleRequest cfg db user .deletion b none comments none now).2 :=
    .of_untouched (handleRequest_untouched _ _ _ _ _ _)
  refine Outcome.andThen_of hhandled fun _ => hhandled.trans ?_
  exact (Discusses.of_untouched (updateClosureComment_untouched _ _ _ _)).trans
    (.deletePackageBase _ _)

theorem pkgbaseMergeInstance_discusses (b target : PackageBase) (comments : String) (now : Nat) :
    Discusses cfg told db (pkgbaseMergeInstance cfg db user b target comments now).2 := by
  have hhandled : Discusses cfg told db
      (handleRequest cfg db user .merge b (some target) comments none now).2 :=
    .of_untouched (handleRequest_untouched _ _ _ _ _ _)
  exact Outcome.andThen_of hhandled fun _ => hhandled.trans (.retryMerge _ _ _)

theorem pkgbaseRequestPost_discusses (name type : String) (mergeInto : Option String)
    (comments : String) (now : Nat) :
    Discusses cfg told db
      (pkgbaseRequestPost cfg db user name type mergeInto comments now).2 := by
  unfold pkgbaseRequestPost
  split
  · exact .refl db
  rename_i b reqType _
  have hfiled : Discusses cfg told db
      (insertRequest db (newRequest reqType user b mergeInto comments "" now)) :=
    .of_untouched (.insertRequest db _)
  simp only
  split
  · refine hfiled.trans (.of_untouched ?_)
    exact (Untouched.setMaintainer _ b.id none).trans (.requests _ _)
  split
  · rw [Outcome.response_snd]
    exact hfiled.trans (pkgbaseDeleteInstance_discusses b comments now)
  · exact hfiled

theorem pkgbaseDeletePost_discusses (name : String) (confirm : Bool) (comments next : String)
    (now : Nat) :
    Discusses cfg told db (pkgbaseDeletePost cfg db user name confirm comments next now).2 := by
  refine getPkgOrBase_of (.refl db) fun b _ _ _ => ?_
  refine unless_of (.refl db) fun _ => unless_of (.refl db) fun _ => ?_
  refine raiseHttp_of (.refl db) fun _ => ?_
  rw [Outcome.response_snd]
  exact (Discusses.of_untouched (updateClosureComment_untouched _ _ _ _)).trans
    (pkgbaseDeleteInstance_discusses b comments now)

theorem pkgbaseMergePost_discusses (name into comments : String) (confirm : Bool) (next : String)
    (now : Nat) :
    Discusses cfg told db
      (pkgbaseMergePost cfg db user name into comments confirm next now).2 := by
  refine getPkgOrBase_of (.refl db) fun b _ _ _ => ?_
  refine unless_of (.refl db) fun _ => unless_of (.refl db) fun _ => ?_
  split
  · exact .refl db
  rename_i target _
  split
  · exact .refl db
  refine raiseHttp_of (.refl db) fun _ => ?_
  rw [Outcome.response_snd]
  exact (Discusses.of_untouched (updateClosureComment_untouched _ _ _ _)).trans
    (pkgbaseMergeInstance_discusses b target comments now)

theorem forEachBase_discusses {action : Db → PackageBase → Outcome}
    (h : ∀ db b, Discusses cfg told db (action db b).2) :
    ∀ (bases : List PackageBase) (db : Db), Discusses cfg told db (forEachBase action bases db).2
  | [], db => .refl db
  | b :: bases, db =>
      Outcome.andThen_of (h db b) fun _ => (h db b).trans (forEachBase_discusses h bases _)

theorem packagesPost_discusses (ids : List Nat) (action : String) (confirm : Bool) (now : Nat) :
    Discusses cfg told db (packagesPost cfg db user ids action confirm now).2 := by
  unfold packagesPost
  split
  · exact .of_untouched (packagesUnflag_untouched ids)
  · unfold packagesNotify
    simp only
    split
    · exact .refl db
    · refine Discusses.foldl (fun db b => ?_) _ db
      exact notify_discusses b.id user.id _
  · unfold packagesUnnotify
    simp only
    split
    · exact .refl db
    split
    · exact .refl db
    · exact .foldl (fun _ b => pkgbaseUnnotifyInstance_discusses b) _ db
  · exact .of_untouched (packagesAdopt_untouched ids confirm now)
  · exact .of_untouched (packagesDisown_untouched ids confirm now)
  · unfold packagesDelete
    split
    · exact .refl db
    split
    · exact .refl db
    split
    · exact .refl db
    split
    · exact .refl db
    · rw [Outcome.response_snd]
      exact forEachBase_discusses (fun _ b => pkgbaseDeleteInstance_discusses b "" now) _ db
  · exact .refl db

theorem accountDeletePost_discusses (name : String) (confirm validPassword : Bool) :
    Discusses cfg told db (accountDeletePost cfg db user name confirm validPassword).2 := by
  unfold accountDeletePost
  split
  · exact .refl db
  · rename_i target _
    have hrestored : Discusses cfg told db { db with
        packageComments := Table.update (·.delUsersID == some target.id)
          (fun c => { c with delUsersID := none }) db.packageComments } :=
      .update (fun _ _ _ => ⟨rfl, Or.inl rfl, Or.inl rfl⟩) fun _ => rfl
    exact hrestored.trans (.deleteUser _ target.id)

/-! ### Every operation -/

theorem Form.post_discusses (hlisted : Listed cfg db) (now : Nat) {form : Form}
    (htold : ∀ id text, form.Tells db id text → told user.id id text) :
    Discusses cfg told db (form.post cfg db user now) := by
  cases form with
  | requestClose id comments => exact .of_untouched (requestClosePost_untouched id comments _)
  | keywords name words => exact .of_untouched (pkgbaseKeywords_untouched name words)
  | flag name comments => exact .of_untouched (pkgbaseFlagPost_untouched name comments _)
  | unflag name =>
      exact getPkgOrBase_of (.refl db) fun b _ _ _ =>
        .of_untouched (pkgbaseUnflagInstance_untouched b)
  | vote name => exact .of_untouched (pkgbaseVote_untouched name _)
  | unvote name => exact .of_untouched (pkgbaseUnvote_untouched name)
  | notify name =>
      exact getPkgOrBase_of (.refl db) fun b _ _ _ => notify_discusses b.id user.id _
  | unnotify name =>
      exact getPkgOrBase_of (.refl db) fun b _ _ _ => pkgbaseUnnotifyInstance_discusses b
  | comment name text enableNotifications =>
      exact pkgbaseCommentsPost_discusses name text enableNotifications (htold _ _ ⟨rfl, rfl⟩)
  | commentEdit name id text enableNotifications cancel next =>
      exact pkgbaseCommentPost_discusses hlisted name id text enableNotifications cancel next
        (htold _ _ ⟨rfl, rfl⟩)
  | commentDelete name id next => exact setDeleter_discusses _ name id _ _ next
  | commentUndelete name id next => exact setDeleter_discusses _ name id _ _ next
  | disown name comments confirm next =>
      exact .of_untouched (pkgbaseDisownPost_untouched name comments confirm next _)
  | adopt name next via => exact .of_untouched (pkgbaseAdoptPost_untouched name next via _)
  | comaintainers name users =>
      exact .of_untouched (pkgbaseComaintainersPost_untouched name users)
  | request name type mergeInto comments =>
      exact pkgbaseRequestPost_discusses name type mergeInto comments _
  | delete name confirm comments next =>
      exact pkgbaseDeletePost_discusses name confirm comments next _
  | merge name into comments confirm next =>
      exact pkgbaseMergePost_discusses name into comments confirm next _
  | packages ids action confirm => exact packagesPost_discusses ids action confirm _
  | accountDelete name confirm validPassword =>
      exact accountDeletePost_discusses name confirm validPassword
  | accountEdit uid username form token =>
      exact .of_untouched (accountEdit_untouched user.id uid username form token now)
  | resend uid token =>
      exact .of_untouched (accountVerifyResend_usersOnly user.id uid token now).untouched
  | proposal id decision => exact .of_untouched (proposalPost_untouched id decision _)
  | terms accept => exact .of_untouched (termsOfServicePost_untouched user.id accept)

theorem runHook_discusses (s : GitServe.Session) (pkgbase : String) (upload : Upload) :
    Discusses cfg told db (runHook cfg db s pkgbase upload) := by
  unfold runHook
  split
  · exact .refl db
  · exact .of_comments (GitUpdate.packageComments_run db _ _)
      (fun hlisted => GitUpdate.listed_run hlisted _ _) (GitUpdate.nextID_run db _ _)

theorem session_discusses (s : GitServe.Session) (action : String) (args : List String)
    (upload : Upload) : Discusses cfg told db (session cfg db s action args upload) := by
  have hserved : Discusses cfg told db (GitServe.serve cfg db s action args).2 :=
    .of_untouched (GitServe.serve_untouched s action args)
  unfold session
  split
  · rename_i heq
    rw [heq] at hserved
    exact hserved.trans (runHook_discusses s _ upload)
  · rename_i heq
    rw [heq] at hserved
    exact hserved.trans (runHook_discusses s _ upload)
  · rename_i heq
    rw [heq] at hserved
    exact hserved

theorem accountmaint_discusses (now : Nat) (tokens : Nat → String) :
    Discusses cfg told db (accountmaint cfg db now tokens) := by
  unfold accountmaint
  split
  · have hwarned : UsersOnly db (AccountMaint.issueAll cfg db
        ((AccountMaint.expiring cfg db now).map (·.id)) tokens now) :=
      UsersOnly.update db _ fun _ => ⟨rfl, rfl⟩
    exact (Discusses.of_untouched hwarned.untouched).trans (.foldl (fun db => .deleteUser db) _ _)
  · exact .refl db

/-- **What an operation does to the comments.** -/
theorem discusses_step (hlisted : Listed cfg db) (op : Op) :
    Discusses cfg (fun uid id text => op.Tells db uid id text) db (step cfg db op) := by
  cases op with
  | post uid now form =>
      simp only [step]
      cases huser : db.user? uid with
      | none => exact .refl db
      | some user =>
          refine Form.post_discusses hlisted now fun id text htold => ⟨?_, htold⟩
          exact (Db.user?_mem huser).2.symm
  | register username email token now =>
      simp only [step]
      split
      · exact .refl db
      · exact .of_comments rfl (fun hlisted => hlisted.register rfl) (Nat.le_succ _)
  | login uid now => exact .of_untouched (login_usersOnly db uid now).untouched
  | verify token now => exact .of_untouched (accountVerify_usersOnly db token now).untouched
  | ssh uid remoteAddr now hookInstalled action args upload =>
      simp only [step]
      split
      · exact .refl db
      · exact session_discusses _ action args upload
  | requestmaint now => exact .of_untouched (.requests db _)
  | accountmaint now tokens => exact accountmaint_discusses now tokens
  | popupdate due => exact .of_untouched (.foldl Untouched.popupdate due db)

theorem listed_step (hlisted : Listed cfg db) (op : Op) : Listed cfg (step cfg db op) :=
  (discusses_step hlisted op).listed hlisted

theorem listed_exec (hlisted : Listed cfg db) (ops : List Op) :
    Listed cfg (Run.exec (step cfg) db ops) := by
  induction ops generalizing db with
  | nil => exact hlisted
  | cons op ops ih => exact ih (listed_step hlisted op)

/-! ### Reading a run backwards -/

/-- From some state on, a comment with this id has this text wherever it is. -/
def Stays (cfg : Config) (db : Db) (ops : List Op) (c : PackageComment) : Prop :=
  Run.Along (step cfg) (fun db => ∀ c' ∈ db.packageComments, c'.id = c.id →
    c'.comments = c.comments) db ops

/-- There is one comment with an id. -/
theorem stays_nil (hlisted : Listed cfg db) {c : PackageComment} (hc : c ∈ db.packageComments) :
    Stays cfg db [] c := by
  intro c' hc' hid
  rw [hlisted.comments.eq_of_key hc' hc hid]

theorem Stays.concat {ops : List Op} {op : Op} {c c' : PackageComment} (h : Stays cfg db ops c)
    (hid : c'.id = c.id) (htext : c'.comments = c.comments)
    (hlast : Stays cfg (Run.exec (step cfg) db (ops ++ [op])) [] c') :
    Stays cfg db (ops ++ [op]) c' := by
  refine Run.Along.concat ?_ hlast
  exact h.imp fun db hall c'' hc'' hid'' => (hall c'' hc'' (hid''.trans hid)).trans htext.symm

/-- However the site is used, a comment under the name of an account has a text that the account
itself has given it, and no other since: with a form that posted the comment or edited it, or it
was there when the run began.  Whatever else becomes of a comment, nobody is made to say what
somebody else has written. -/
theorem comments_of_run (hlisted : Listed cfg db) (ops : List Op) {c : PackageComment}
    (hc : c ∈ (Run.exec (step cfg) db ops).packageComments) {uid : Nat}
    (huid : c.usersID = some uid) :
    (∃ c₀ ∈ db.packageComments, c₀.id = c.id ∧ c₀.usersID = some uid ∧ Stays cfg db ops c) ∨
      ∃ pre op post, ops = pre ++ op :: post ∧
        op.Tells (Run.exec (step cfg) db pre) uid c.id c.comments ∧
        Stays cfg (Run.exec (step cfg) db (pre ++ [op])) post c := by
  induction ops using List.reverseRecOn generalizing c with
  | nil => exact Or.inl ⟨c, hc, rfl, huid, stays_nil hlisted hc⟩
  | append_singleton ops op ih =>
      have hbefore := listed_exec hlisted ops
      have hlast := stays_nil (listed_exec hlisted (ops ++ [op])) hc
      rw [Run.exec_append] at hc
      -- The text was given by this operation, or the comment had it before.
      have htold : op.Tells (Run.exec (step cfg) db ops) uid c.id c.comments ∨
          ∃ c₀ ∈ (Run.exec (step cfg) db ops).packageComments, c₀.id = c.id ∧
            c₀.usersID = some uid ∧ c₀.comments = c.comments := by
        rcases (discusses_step hbefore op).comments.mem hc with ⟨c₀, hc₀, hedited⟩ | hposted
        · rcases hedited.comments with heq | ⟨uid', huid', htold⟩
          · exact Or.inr ⟨c₀, hc₀, hedited.id.symm, hedited.author huid, heq.symm⟩
          · obtain rfl := Option.some.inj ((hedited.author huid).symm.trans huid')
            exact Or.inl (hedited.id ▸ htold)
        · exact Or.inl (hposted uid huid)
      rcases htold with htold | ⟨c₀, hc₀, hid, huid₀, htext⟩
      · exact Or.inr ⟨ops, op, [], rfl, htold, hlast⟩
      rcases ih hc₀ huid₀ with ⟨c₁, hc₁, hid₁, huid₁, hstays⟩ |
        ⟨pre, op', post, rfl, htold, hstays⟩
      · exact Or.inl ⟨c₁, hc₁, hid₁.trans hid, huid₁, hstays.concat hid.symm htext.symm hlast⟩
      · refine Or.inr ⟨pre, op', post ++ [op], by simp, hid ▸ htext ▸ htold, ?_⟩
        refine hstays.concat hid.symm htext.symm ?_
        rw [← Run.exec_append]
        simpa using hlast

end

/-! ### A comment somebody else tries to edit -/

/-- `alice` comments and changes what she has said; `bob` tries to. -/
def rewording : List Op :=
  [.post 1 (10 * 1000000) (.comment "foo" "It does not build." true),
    .post 1 (20 * 1000000) (.commentEdit "foo" 5 "It builds again." false false ""),
    .post 2 (30 * 1000000) (.commentEdit "foo" 5 "It never will." false false "")]

def reworded : PackageComment where
  id := 5
  packageBaseID := 4
  usersID := some 1
  comments := "It builds again."
  editedUsersID := some 1
  delUsersID := none

theorem comments_of_run_rewording :
    reworded ∈ (Run.exec (step siteConfig) smallSite rewording).packageComments ∧
      ((∃ c₀ ∈ smallSite.packageComments, c₀.id = 5 ∧ c₀.usersID = some 1 ∧
          Stays siteConfig smallSite rewording reworded) ∨
        ∃ pre op post, rewording = pre ++ op :: post ∧
          op.Tells (Run.exec (step siteConfig) smallSite pre) 1 5 "It builds again." ∧
          Stays siteConfig (Run.exec (step siteConfig) smallSite (pre ++ [op])) post reworded) := by
  have hmem : reworded ∈ (Run.exec (step siteConfig) smallSite rewording).packageComments := by
    decide +kernel
  exact ⟨hmem, comments_of_run smallSite_listed rewording hmem rfl⟩

end Aurweb
