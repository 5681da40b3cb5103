/-
What a refused disowning leaves behind.

The form writes the operator's comment on every orphan request that waits before it asks
whether one of them is due.  A refusal leaves the database as it was exactly when there was
nothing to write: no comment, or the same one already there.
-/
import Aurweb.Proofs.Disowning

namespace Aurweb

/-- Somebody who does not work on the base disowns it, and nothing on the form forbids it. -/
structure Enforces (cfg : Config) (db : Db) (user : User) (b : PackageBase) (comments : String)
    (confirm : Bool) : Prop where
  notMaintainer : b.maintainerUID ≠ some user.id
  notComaintainer : isComaintainer db b.id user.id = false
  elevated : hasCredential user .pkgbaseDisown [] = true
  confirmed : confirm = true
  comment : optionalComment cfg comments = .ok ()

/-- Who may disown the base without a request. -/
def WorksOn (db : Db) (user : User) (b : PackageBase) : Prop :=
  b.maintainerUID = some user.id ∨ isComaintainer db b.id user.id = true

/-- The form has been checked. -/
structure Checked (cfg : Config) (db : Db) (user : User) (b : PackageBase) (comments : String)
    (confirm : Bool) : Prop where
  comment : optionalComment cfg comments = .ok ()
  credential : hasCredential user .pkgbaseDisown
    (b.maintainerUID :: comaintainerIDs db b.id) = true
  confirmed : confirm = true

/-- There is an orphan request that the comment would be put on, and is not on yet. -/
def Overwrites (db : Db) (b : PackageBase) (comments : String) : Prop :=
  comments ≠ "" ∧ ∃ r ∈ db.packageRequests, r.concerns b = true ∧ r.isPending .orphan = true ∧
    r.closureComment ≠ comments

/-- The page of a disowning that no due request allows. -/
def noDueRequest (b : PackageBase) : Response :=
  .render 400 [s!"No due existing orphan requests to accept for {b.name}."]

/-- Whoever is told so has changed nothing. -/
def RefusedUntouched (cfg : Config) (db : Db) (user : User) (name comments : String)
    (confirm : Bool) (next : String) (now : Nat) : Prop :=
  ∀ b, baseNamed cfg db name = some b →
    (pkgbaseDisownPost cfg db user name comments confirm next now).1 = noDueRequest b →
      (pkgbaseDisownPost cfg db user name comments confirm next now).2 = db

section

variable {cfg : Config} {db : Db} {user : User} {b : PackageBase} {name comments : String}
  {confirm : Bool} {now : Nat}

/-! ### Who disowns -/

/-- The test of the form. -/
theorem not_worksOn_iff : ¬WorksOn db user b ↔ b.maintainerUID ≠ some user.id ∧
    (comaintainerIDs db b.id).contains (some user.id) = false := by
  unfold WorksOn isComaintainer
  rw [not_or, Bool.not_eq_true]

theorem Enforces.not_worksOn (h : Enforces cfg db user b comments confirm) :
    ¬WorksOn db user b := by
  rintro (hm | hco)
  · exact h.notMaintainer hm
  · rw [h.notComaintainer] at hco
    cases hco

theorem Enforces.checked (h : Enforces cfg db user b comments confirm) :
    Checked cfg db user b comments confirm where
  comment := h.comment
  credential := by
    have helevated := h.elevated
    unfold hasCredential at helevated ⊢
    simp only [List.contains_nil, Bool.false_or] at helevated
    rw [helevated, Bool.or_true]
  confirmed := h.confirmed

theorem Checked.enforces (h : Checked cfg db user b comments confirm) (hnot : ¬WorksOn db user b) :
    Enforces cfg db user b comments confirm := by
  unfold WorksOn at hnot
  rw [not_or] at hnot
  refine ⟨hnot.1, by simpa using hnot.2, ?_, h.confirmed, h.comment⟩
  have hcred := h.credential
  unfold hasCredential at hcred ⊢
  rw [List.contains_cons, Bool.or_eq_true, Bool.or_eq_true] at hcred
  rcases hcred with (hm | hco) | hel
  · exact absurd (beq_iff_eq.mp hm).symm hnot.1
  · exact absurd hco hnot.2
  · rw [hel, Bool.or_true]

/-! ### The comment -/

theorem updateClosureComment_eq_self_iff :
    updateClosureComment cfg db b .orphan comments none = db ↔ ¬Overwrites db b comments := by
  unfold updateClosureComment Overwrites
  by_cases hempty : comments = ""
  · simp [hempty]
  rw [if_neg hempty]
  have hrows : updateRequests db (fun r => r.concerns b && r.isPending .orphan &&
      (RequestType.orphan != .merge || r.mergesInto cfg none))
      (fun r => { r with closureComment := comments }) = db ↔
        ∀ r ∈ db.packageRequests, (r.concerns b && r.isPending .orphan &&
          (RequestType.orphan != .merge || r.mergesInto cfg none)) = true →
          { r with closureComment := comments } = r := by
    rw [← Table.update_eq_self_iff]
    constructor
    · intro h
      exact congrArg Db.packageRequests h
    · intro h
      unfold updateRequests
      rw [h]
  rw [hrows]
  constructor
  · rintro h ⟨-, r, hr, hconcerns, hpending, hne⟩
    exact hne (congrArg PackageRequest.closureComment (h r hr (by simp [hconcerns, hpending]))).symm
  · intro h r hr hcond
    simp only [Bool.and_eq_true] at hcond
    by_contra hne
    refine h ⟨hempty, r, hr, hcond.1.1, hcond.1.2, fun heq => hne ?_⟩
    rw [← heq]

/-- A comment is not among the columns the form goes on to read. -/
theorem requestColumns_updateClosureComment (cfg : Config) (db : Db) (b : PackageBase)
    (comments : String) :
    requestColumns (updateClosureComment cfg db b .orphan comments none) = requestColumns db := by
  unfold updateClosureComment
  split
  · rfl
  · apply Table.map_update
    intro r
    rfl

/-! ### What can be raised while requests are handled -/

/-- Closing a request can only fail for want of a text. -/
def Wordless (e : Raised) : Prop := e = .other "NotImplementedError" ∨ e = .other "AttributeError"

theorem getClosure_wordless {reqType : RequestType} {target : Option PackageBase}
    {status : RequestStatus} {e : Raised} (h : getClosure reqType b target status = .error e) :
    Wordless e := by
  unfold getClosure at h
  by_cases hrejected : status = .rejected
  · simp only [hrejected, if_true] at h
    split at h
    · exact Or.inl (Except.error.inj h).symm
    · exact Or.inl (Except.error.inj h).symm
    · exact absurd h (by simp)
    · exact Or.inr (Except.error.inj h).symm
    · exact absurd h (by simp)
  · simp only [hrejected, if_false] at h
    split at h
    · exact absurd h (by simp)
    · exact absurd h (by simp)
    · exact absurd h (by simp)
    · exact Or.inr (Except.error.inj h).symm
    · exact absurd h (by simp)

theorem closePkgreq_wordless {target : Option PackageBase} {status : RequestStatus}
    {r : PackageRequest} {e : Raised} (h : closePkgreq user b target status now r = .error e) :
    Wordless e := by
  unfold closePkgreq at h
  by_cases hempty : r.closureComment = ""
  · rw [if_pos hempty] at h
    cases htext : getClosure r.reqType b target status with
    | error e' =>
        rw [htext] at h
        obtain rfl := Except.error.inj h
        exact getClosure_wordless htext
    | ok text =>
        rw [htext] at h
        cases h
  · rw [if_neg hempty] at h
    cases h

theorem retryClosures_wordless {target : Option PackageBase} {toAccept toReject : List Nat}
    {e : Raised}
    (h : (retryClosures db user b target toAccept toReject now).1 = .error e) : Wordless e := by
  unfold retryClosures at h
  simp only at h
  split at h
  · rename_i e' hrows
    obtain rfl := Except.error.inj h
    obtain ⟨r, -, hclose⟩ := Table.exists_of_mapM_error hrows
    split at hclose
    · exact closePkgreq_wordless hclose
    split at hclose
    · exact closePkgreq_wordless hclose
    · cases hclose
  · cases h

theorem handleRequest_undue (user : User) (hdue : verifyOrphanRequest cfg db b now = false) :
    handleRequest cfg db user .orphan b none "" none now =
      (.error (.invariant s!"No due existing orphan requests to accept for {b.name}."), db) :=
  if_pos ⟨rfl, hdue⟩

theorem handleRequest_wordless (hdue : verifyOrphanRequest cfg db b now = true) {e : Raised}
    (h : (handleRequest cfg db user .orphan b none "" none now).1 = .error e) : Wordless e := by
  unfold handleRequest at h
  rw [if_neg (by simp [hdue])] at h
  simp only at h
  split at h
  · exact retryClosures_wordless h
  · exact retryClosures_wordless h

/-! ### The form -/

/-- What becomes of a form that nothing forbids. -/
theorem disownPost_checked (h : Checked cfg db user b comments confirm)
    (hnamed : baseNamed cfg db name = some b) (next : String) :
    pkgbaseDisownPost cfg db user name comments confirm next now =
      match pkgbaseDisownInstance cfg
          (if b.maintainerUID ≠ some user.id ∧
              (comaintainerIDs db b.id).contains (some user.id) = false then
            updateClosureComment cfg db b .orphan comments none else db) user b now with
      | (.error (.invariant message), db) => (.render 400 [message], db)
      | outcome => Outcome.response outcome (nextOr next s!"/pkgbase/{name}") := by
  unfold pkgbaseDisownPost getPkgOrBase
  simp only [hnamed, h.comment, raiseHttp]
  exact (if_neg (by simp [h.credential])).trans (if_neg (by simp [h.confirmed]))

theorem disownPost_enforced (h : Enforces cfg db user b comments confirm)
    (hnamed : baseNamed cfg db name = some b) (next : String) :
    pkgbaseDisownPost cfg db user name comments confirm next now =
      match (handleRequest cfg (updateClosureComment cfg db b .orphan comments none) user .orphan b
          none "" none now).andThen fun db => done (orphan db b.id) with
      | (.error (.invariant message), db) => (.render 400 [message], db)
      | outcome => Outcome.response outcome (nextOr next s!"/pkgbase/{name}") := by
  have hco : isComaintainer (updateClosureComment cfg db b .orphan comments none) b.id user.id =
      false := by
    obtain ⟨rows, hrows⟩ := updateClosureComment_frame cfg db b .orphan comments none
    rw [hrows]
    exact h.notComaintainer
  rw [disownPost_checked h.checked hnamed, if_pos (not_worksOn_iff.mp h.not_worksOn)]
  unfold pkgbaseDisownInstance
  rw [if_neg h.notMaintainer, if_neg (by simp [hco]), if_pos h.elevated]

theorem disownPost_refused (h : Enforces cfg db user b comments confirm)
    (hnamed : baseNamed cfg db name = some b) (next : String)
    (hdue : verifyOrphanRequest cfg db b now = false) :
    pkgbaseDisownPost cfg db user name comments confirm next now =
      (noDueRequest b, updateClosureComment cfg db b .orphan comments none) := by
  have hcolumns := requestColumns_updateClosureComment cfg db b comments
  rw [disownPost_enforced h hnamed,
    handleRequest_undue user ((verifyOrphanRequest_congr hcolumns b).trans hdue)]
  rfl

theorem nextOr_ne_render (next url : String) (status : Nat) (errors : List String) :
    nextOr next url ≠ .render status errors := by
  unfold nextOr
  exact nofun

/-- Once a request is due, nobody is told that none is. -/
theorem disownPost_due (h : Enforces cfg db user b comments confirm)
    (hnamed : baseNamed cfg db name = some b) (next : String)
    (hdue : verifyOrphanRequest cfg db b now = true) :
    (pkgbaseDisownPost cfg db user name comments confirm next now).1 ≠ noDueRequest b := by
  have hcolumns := requestColumns_updateClosureComment cfg db b comments
  have hdue' := (verifyOrphanRequest_congr hcolumns b).trans hdue
  have hwordless : ∀ e, (handleRequest cfg (updateClosureComment cfg db b .orphan comments none)
      user .orphan b none "" none now).1 = .error e → Wordless e :=
    fun e he => handleRequest_wordless hdue' he
  rw [disownPost_enforced h hnamed]
  generalize handleRequest cfg (updateClosureComment cfg db b .orphan comments none) user .orphan
    b none "" none now = o at hwordless
  obtain ⟨r, db'⟩ := o
  cases r with
  | ok u => exact nextOr_ne_render _ _ _ _
  | error e =>
      rcases hwordless e rfl with rfl | rfl
      · exact nofun
      · exact nofun

/-- Whoever works on the base is not asked for a request. -/
theorem disownPost_own (hchecked : Checked cfg db user b comments confirm)
    (h : WorksOn db user b) (hnamed : baseNamed cfg db name = some b) (next : String) :
    (pkgbaseDisownPost cfg db user name comments confirm next now).1 ≠ noDueRequest b := by
  rw [disownPost_checked hchecked hnamed, if_neg fun hnot => not_worksOn_iff.mpr hnot h]
  unfold pkgbaseDisownInstance
  by_cases hm : b.maintainerUID = some user.id
  · rw [if_pos hm]
    exact nextOr_ne_render _ _ _ _
  · rw [if_neg hm, if_pos (h.resolve_left hm)]
    exact nextOr_ne_render _ _ _ _

/-- A form that is turned away writes nothing. -/
theorem disownPost_unchecked (h : ¬Checked cfg db user b comments confirm)
    (hnamed : baseNamed cfg db name = some b) (next : String) :
    (pkgbaseDisownPost cfg db user name comments confirm next now).2 = db := by
  unfold pkgbaseDisownPost getPkgOrBase
  simp only [hnamed]
  cases hcomment : optionalComment cfg comments with
  | error message => rfl
  | ok u =>
      simp only [raiseHttp]
      split
      · rfl
      split
      · rfl
      · rename_i hcred hconfirm
        exact absurd ⟨hcomment, by simpa using hcred, by simpa using hconfirm⟩ h

end

/--
**A refused disowning changes nothing unless a comment comes first.**  Whoever is told that no
orphan request is due has left the database as it was, save for an operator who does not work
on the base and gives a comment that some waiting orphan request does not carry yet.
-/
theorem refusedUntouched_iff (cfg : Config) (db : Db) (user : User) (name comments : String)
    (confirm : Bool) (next : String) (now : Nat) :
    RefusedUntouched cfg db user name comments confirm next now ↔
      ∀ b, baseNamed cfg db name = some b →
        ¬(Enforces cfg db user b comments confirm ∧
          verifyOrphanRequest cfg db b now = false ∧ Overwrites db b comments) := by
  constructor
  · rintro h b hnamed ⟨henforces, hundue, hoverwrites⟩
    have hrefused := disownPost_refused henforces hnamed next hundue
    have hsame := h b hnamed (congrArg Prod.fst hrefused)
    rw [hrefused] at hsame
    exact updateClosureComment_eq_self_iff.mp hsame hoverwrites
  · intro h b hnamed hpage
    by_cases hchecked : Checked cfg db user b comments confirm
    swap
    · exact disownPost_unchecked hchecked hnamed next
    by_cases hworks : WorksOn db user b
    · exact absurd hpage (disownPost_own hchecked hworks hnamed next)
    have henforces := hchecked.enforces hworks
    by_cases hdue : verifyOrphanRequest cfg db b now = true
    · exact absurd hpage (disownPost_due henforces hnamed next hdue)
    have hundue : verifyOrphanRequest cfg db b now = false := by simpa using hdue
    rw [disownPost_refused henforces hnamed next hundue]
    refine updateClosureComment_eq_self_iff.mpr fun hoverwrites => ?_
    exact h b hnamed ⟨henforces, hundue, hoverwrites⟩

/-- `bob` tells `alice` why, a hundred seconds after she has asked for `foo` to be orphaned:
he is refused, and his answer stays on her request. -/
theorem not_refusedUntouched_bob :
    ¬RefusedUntouched siteConfig sharedSite (account 2 .packageMaintainer "bob") "foo" "no reply"
      true "" 8640100 := by
  intro h
  obtain ⟨b, hnamed⟩ : ∃ b, baseNamed siteConfig sharedSite "foo" = some b :=
    Option.isSome_iff_exists.mp (by decide +kernel)
  have hpage : ∀ b ∈ baseNamed siteConfig sharedSite "foo",
      (pkgbaseDisownPost siteConfig sharedSite (account 2 .packageMaintainer "bob") "foo"
        "no reply" true "" 8640100).1 = noDueRequest b := by
    decide +kernel
  have hwritten : (pkgbaseDisownPost siteConfig sharedSite (account 2 .packageMaintainer "bob")
      "foo" "no reply" true "" 8640100).2 ≠ sharedSite := by
    decide +kernel
  exact hwritten (h b hnamed (hpage b hnamed))

end Aurweb
