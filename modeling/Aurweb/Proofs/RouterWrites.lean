/-
What the forms write.

`Grants` says what a logged-in user may do, read off the tables: an elevated user may
decide about every base, a maintainer about theirs, a comaintainer may edit it.  Given
that, each route is a chain of writes; what a route does that none should do is a
hypothesis about the form, and the claim it matters to settles it.
-/
import Aurweb.Proofs.PkgbaseWrites

namespace Aurweb

/-- What a user may do by their account and their relation to a base. -/
structure Grants (db : Db) (user : User) (may : May) : Prop where
  actor : may.actor = some user.id
  elevated : user.isElevated = true → ∀ id, may.manage id
  maintainer : ∀ b ∈ db.packageBases, b.maintainerUID = some user.id → may.manage b.id
  manager : ∀ id, may.manage id → may.edit id
  comaintainer : ∀ id, isComaintainer db id user.id = true → may.edit id
  editor : ∀ id, may.edit id → may.clear id
  flagger : ∀ b ∈ db.packageBases, b.flaggerUID = some user.id → may.clear b.id

section

variable {cfg : Config} {may : May} {db : Db} {user : User}

/-- A credential of elevated users, or of those approved. -/
theorem hasCredential_cases {c : Credential} {approved : List (Option Nat)}
    (hc : credFilters c = packageMaintainerOrDev) (h : hasCredential user c approved = true) :
    user.isElevated = true ∨ some user.id ∈ approved := by
  simp only [hasCredential, Bool.or_eq_true, List.contains_iff_mem, hc] at h
  rcases h with h | h
  · exact Or.inr h
  · exact Or.inl (by simpa [User.isElevated] using h)

theorem mem_comaintainerIDs {baseID : Nat} (h : some user.id ∈ comaintainerIDs db baseID) :
    isComaintainer db baseID user.id = true := by
  simpa [isComaintainer] using h

/-! ### Look-ups -/

theorem getPkgOrBase_of {P : Db → Prop} {name : String} {route : PackageBase → Response × Db}
    (h : P db) (hroute : ∀ b ∈ db.packageBases, cfg.sameName b.name name = true →
      baseNamed cfg db name = some b → P (route b).2) :
    P (getPkgOrBase cfg db name route).2 := by
  unfold getPkgOrBase
  split
  · exact h
  · rename_i b hb
    obtain ⟨hmem, hname⟩ := baseNamed_mem hb
    exact hroute b hmem hname hb

/-- A route that is refused unless something holds. -/
theorem unless_of {P : Db → Prop} {holds : Bool} {refusal : Response} {route : Response × Db}
    (h : P db) (hroute : holds = true → P route.2) :
    P (if !holds then (refusal, db) else route).2 := by
  cases holds with
  | true => exact hroute rfl
  | false => exact h

theorem getPkgbaseComment_of {P : Db → Prop} {pkgbase : PackageBase} {id : Nat}
    {route : PackageComment → Response × Db} (h : P db) (hroute : ∀ c, P (route c).2) :
    P (getPkgbaseComment db pkgbase id route).2 := by
  unfold getPkgbaseComment
  split
  · exact h
  · exact hroute _

theorem raiseHttp_of {P : Db → Prop} {check : Except String Unit} {route : Response × Db}
    (h : P db) (hroute : check = .ok () → P route.2) : P (raiseHttp db check route).2 := by
  unfold raiseHttp
  cases hcheck : check with
  | error message => exact h
  | ok u => exact hroute hcheck

/-! ### Requests -/

theorem requestClosePost_writes (hwf : WellFormed cfg db) (id : Nat) (comments : String)
    (now : Nat)
    (hreclose : ∀ r ∈ db.packageRequests, r.id = id → r.status ≠ .pending →
      hasCredential user .pkgreqClose [r.usersID] = true → may.reclose) :
    Writes cfg may db (requestClosePost db user id comments now).2 := by
  unfold requestClosePost
  split
  · exact Relation.ReflTransGen.refl
  rename_i pkgreq hfind
  have hmem : pkgreq ∈ db.packageRequests := List.mem_of_find?_eq_some hfind
  have hid : pkgreq.id = id := by simpa using List.find?_some hfind
  split
  · exact Relation.ReflTransGen.refl
  rename_i hcred
  refine Writes.one ?_
  by_cases hpending : pkgreq.status = .pending
  · refine .settle (settles_update fun r hr hkey => ?_)
    obtain rfl : r = pkgreq :=
      hwf.requests.eq_of_key hr hmem ((beq_iff_eq.mp hkey).trans hid.symm)
    exact Closes.settles ⟨rfl, rfl, rfl, rfl, by simp, rfl⟩ hpending
  · refine .reclose ?_ fun r => ⟨rfl, rfl, rfl, rfl, by simp, rfl⟩
    exact hreclose pkgreq hmem hid hpending (by simpa using hcred)

theorem requestmaint_writes (now : Nat) : Writes cfg may db (requestmaint cfg db now) := by
  refine Writes.one (.settle (settles_update fun r _ hp => ?_))
  have hpending : r.status = .pending := by
    simp only [PackageRequest.isPending, Bool.and_eq_true, beq_iff_eq] at hp
    exact hp.1.2
  exact Closes.settles ⟨rfl, rfl, rfl, rfl, by simp, rfl⟩ hpending

/-! ### Keywords, flags, votes and notifications -/

/-- Some keywords of a base are deleted and others inserted. -/
theorem replaceKeywords_writes {id : Nat} (hedit : may.edit id) {p : PackageKeyword → Bool}
    (hp : ∀ r, p r = true → r.packageBaseID = id) (words : List String) :
    Writes cfg may db { db with
      packageKeywords := Table.delete p db.packageKeywords ++
        words.map fun w => { packageBaseID := id, keyword := w } } := by
  have hinserted : (words.map fun w => { packageBaseID := id, keyword := w : PackageKeyword }).filter
      (fun r => r.packageBaseID != id) = [] := by
    simp
  refine Writes.one (.keywords hedit ?_)
  rw [List.filter_append, hinserted, List.append_nil, Table.delete, List.filter_filter]
  refine List.filter_congr fun r _ => ?_
  by_cases hr : r.packageBaseID = id
  · simp [hr]
  · have hkept : p r = false := eq_false_of_ne_true fun h => hr (hp r h)
    simp [hkept]

theorem pkgbaseKeywords_writes (hg : Grants db user may) (name : String) (words : List String) :
    Writes cfg may db (pkgbaseKeywords cfg db user name words).2 := by
  refine getPkgOrBase_of Relation.ReflTransGen.refl fun b hb _ _ => ?_
  refine unless_of Relation.ReflTransGen.refl fun hcred => ?_
  have hedit : may.edit b.id := by
    rcases hasCredential_cases rfl hcred with hel | hmem
    · exact hg.manager _ (hg.elevated hel _)
    · rcases List.mem_cons.mp hmem with hm | hc
      · exact hg.manager _ (hg.maintainer b hb hm.symm)
      · exact hg.comaintainer _ (mem_comaintainerIDs hc)
  refine replaceKeywords_writes hedit (fun r hr => ?_) _
  exact beq_iff_eq.mp ((Bool.and_eq_true _ _).mp hr).1

theorem pkgbaseFlagPost_writes (hwf : WellFormed cfg db) (name comments : String) (now : Nat) :
    Writes cfg may db (pkgbaseFlagPost cfg db user name comments now).2 := by
  refine getPkgOrBase_of Relation.ReflTransGen.refl fun b hb _ _ => ?_
  split
  · exact Relation.ReflTransGen.refl
  refine raiseHttp_of Relation.ReflTransGen.refl fun _ => ?_
  split
  · rename_i hcond
    refine Writes.one (.mark (fun _ => ⟨rfl, rfl, rfl⟩) (fun _ => rfl) fun b' hb' hid => ?_)
    rw [hwf.base_eq hb' hb hid]
    simp only [Bool.and_eq_true, Bool.not_eq_true'] at hcond
    exact Or.inr (Or.inl hcond.2)
  · exact Relation.ReflTransGen.refl

/-- Whoever may unflag a base has something to do with it. -/
theorem pkgbaseUnflagInstance_writes {db₀ : Db} (hg : Grants db₀ user may) {b : PackageBase}
    (hb : b ∈ db₀.packageBases) (hco : db.packageComaintainers = db₀.packageComaintainers) :
    Writes cfg may db (pkgbaseUnflagInstance db user b) ∧
      (pkgbaseUnflagInstance db user b).packageComaintainers = db₀.packageComaintainers := by
  have hids : comaintainerIDs db b.id = comaintainerIDs db₀ b.id := by
    unfold comaintainerIDs
    rw [hco]
  unfold pkgbaseUnflagInstance
  split
  · rename_i hcred
    refine ⟨Writes.one (.mark (fun _ => ⟨rfl, rfl, rfl⟩) (fun _ => rfl) fun b' _ _ => Or.inl ?_),
      hco⟩
    rcases hasCredential_cases rfl hcred with hel | hmem
    · exact hg.editor _ (hg.manager _ (hg.elevated hel _))
    · rw [hids] at hmem
      rcases List.mem_append.mp hmem with hmem | hmem
      · simp only [List.mem_cons, List.not_mem_nil, or_false] at hmem
        rcases hmem with hf | hm
        · exact hg.flagger b hb hf.symm
        · exact hg.editor _ (hg.manager _ (hg.maintainer b hb hm.symm))
      · exact hg.editor _ (hg.comaintainer _ (mem_comaintainerIDs hmem))
  · exact ⟨Relation.ReflTransGen.refl, hco⟩

theorem unflagAll_writes {db₀ : Db} (hg : Grants db₀ user may) :
    ∀ (bases : List PackageBase) (db : Db), (∀ b ∈ bases, b ∈ db₀.packageBases) →
      db.packageComaintainers = db₀.packageComaintainers →
      Writes cfg may db (bases.foldl (fun db b => pkgbaseUnflagInstance db user b) db)
  | [], _, _, _ => Relation.ReflTransGen.refl
  | b :: bases, db, hmem, hco => by
      have hfirst : Writes cfg may db (pkgbaseUnflagInstance db user b) ∧
          (pkgbaseUnflagInstance db user b).packageComaintainers = db₀.packageComaintainers :=
        pkgbaseUnflagInstance_writes hg (hmem b (by simp)) hco
      obtain ⟨hw, hco'⟩ := hfirst
      exact hw.trans (unflagAll_writes hg bases _ (fun b' hb' => hmem b' (by simp [hb'])) hco')

/-- Votes of one base change, and are counted. -/
theorem popupdate_writes {id : Nat} {votes : List PackageVote}
    (hbases : ∀ v ∈ votes, ∃ b ∈ db.packageBases, b.id = v.packageBaseID)
    (hunique : (votes.map fun v => (v.usersID, v.packageBaseID)).Nodup)
    (hother : (votes.filter fun v => v.packageBaseID != id) =
      db.packageVotes.filter fun v => v.packageBaseID != id) :
    Writes cfg may db (popupdate { db with packageVotes := votes } id) := by
  refine Writes.one (.ballot (fun _ => ⟨rfl, rfl, rfl⟩) (fun _ => ⟨rfl, rfl⟩) hbases hunique hother
    fun _ b hb hid => ?_)
  obtain ⟨b₀, -, rfl⟩ := Table.mem_update.mp hb
  by_cases h : b₀.id = id
  · simp [h, votesOf, Db.updatePackageBase]
  · simp [h] at hid

theorem insertVote_ok (hwf : WellFormed cfg db) {b : PackageBase} (hb : b ∈ db.packageBases)
    {uid : Nat} (now : Nat) (hnone : hasPackageVote db b.id uid = false) :
    let votes := db.packageVotes ++ [{ usersID := uid, packageBaseID := b.id, voteTS := now }]
    (∀ v ∈ votes, ∃ b ∈ db.packageBases, b.id = v.packageBaseID) ∧
    (votes.map fun v => (v.usersID, v.packageBaseID)).Nodup ∧
    (votes.filter fun v => v.packageBaseID != b.id) =
      db.packageVotes.filter fun v => v.packageBaseID != b.id := by
  refine ⟨?_, ?_, by simp⟩
  · intro v hv
    rcases List.mem_append.mp hv with hv | hv
    · exact hwf.voteBases v hv
    · rw [List.mem_singleton.mp hv]
      exact ⟨b, hb, rfl⟩
  · rw [List.map_append, List.map_singleton]
    refine List.Nodup.append hwf.votes (List.nodup_singleton _) ?_
    intro k hk hk'
    obtain ⟨v, hv, rfl⟩ := List.mem_map.mp hk
    simp only [List.mem_singleton, Prod.mk.injEq] at hk'
    have hvoted : hasPackageVote db b.id uid = true :=
      List.any_eq_true.mpr ⟨v, hv, by simp [hk'.1, hk'.2]⟩
    rw [hnone] at hvoted
    cases hvoted

theorem deleteVotes_ok (hwf : WellFormed cfg db) (id uid : Nat) :
    let votes := Table.delete (fun v : PackageVote => v.packageBaseID == id && v.usersID == uid)
      db.packageVotes
    (∀ v ∈ votes, ∃ b ∈ db.packageBases, b.id = v.packageBaseID) ∧
    (votes.map fun v => (v.usersID, v.packageBaseID)).Nodup ∧
    (votes.filter fun v => v.packageBaseID != id) =
      db.packageVotes.filter fun v => v.packageBaseID != id := by
  refine ⟨fun v hv => hwf.voteBases v (Table.mem_delete.mp hv).1,
    hwf.votes.sublist ((Table.delete_sublist _ _).map _), ?_⟩
  unfold Table.delete
  rw [List.filter_filter]
  refine List.filter_congr fun v _ => ?_
  by_cases hv : v.packageBaseID = id <;> simp [hv]

theorem pkgbaseVote_writes (hwf : WellFormed cfg db) (name : String) (now : Nat) :
    Writes cfg may db (pkgbaseVote cfg db user name now).2 := by
  refine getPkgOrBase_of Relation.ReflTransGen.refl fun b hb _ _ => ?_
  split
  · rename_i hcond
    simp only [Bool.and_eq_true, Bool.not_eq_true'] at hcond
    obtain ⟨hbases, hunique, hother⟩ := insertVote_ok hwf hb now hcond.2
    exact popupdate_writes hbases hunique hother
  · exact Relation.ReflTransGen.refl

theorem pkgbaseUnvote_writes (hwf : WellFormed cfg db) (name : String) :
    Writes cfg may db (pkgbaseUnvote cfg db user name).2 := by
  refine getPkgOrBase_of Relation.ReflTransGen.refl fun b _ _ _ => ?_
  split
  · obtain ⟨hbases, hunique, hother⟩ := deleteVotes_ok hwf b.id user.id
    exact popupdate_writes hbases hunique hother
  · exact Relation.ReflTransGen.refl

/-- A write of notifications or comments only. -/
theorem side_writes {notifications : List PackageNotification} {comments : List PackageComment}
    {n : Nat} (hn : db.nextID ≤ n) :
    Writes cfg may db { db with
      packageNotifications := notifications, packageComments := comments, nextID := n } :=
  Writes.one (.side rfl rfl rfl rfl rfl rfl hn rfl)

theorem pkgbaseNotifyInstance_writes (b : PackageBase) :
    Writes cfg may db (pkgbaseNotifyInstance db user b) := by
  unfold pkgbaseNotifyInstance
  split
  · exact side_writes (Nat.le_refl _)
  · exact Relation.ReflTransGen.refl

theorem pkgbaseUnnotifyInstance_writes (b : PackageBase) :
    Writes cfg may db (pkgbaseUnnotifyInstance db user b) := by
  unfold pkgbaseUnnotifyInstance
  split
  · exact side_writes (Nat.le_refl _)
  · exact Relation.ReflTransGen.refl

theorem foldl_writes {action : Db → PackageBase → Db}
    (h : ∀ db b, Writes cfg may db (action db b)) :
    ∀ (bases : List PackageBase) (db : Db), Writes cfg may db (bases.foldl action db)
  | [], _ => Relation.ReflTransGen.refl
  | b :: bases, db => (h db b).trans (foldl_writes h bases _)

/-! ### Comments -/

theorem pkgbaseCommentsPost_writes (name comment : String) (enableNotifications : Bool) :
    Writes cfg may db (pkgbaseCommentsPost cfg db user name comment enableNotifications).2 := by
  refine getPkgOrBase_of Relation.ReflTransGen.refl fun b _ _ _ => ?_
  refine raiseHttp_of Relation.ReflTransGen.refl fun _ => ?_
  simp only
  split
  · exact side_writes (Nat.le_succ _)
  · exact side_writes (Nat.le_succ _)

theorem pkgbaseCommentPost_writes (name : String) (id : Nat) (comment : String)
    (enableNotifications cancel : Bool) (next : String) :
    Writes cfg may db
      (pkgbaseCommentPost cfg db user name id comment enableNotifications cancel next).2 := by
  unfold pkgbaseCommentPost
  split
  · exact Relation.ReflTransGen.refl
  refine getPkgOrBase_of Relation.ReflTransGen.refl fun b _ _ _ => ?_
  refine getPkgbaseComment_of Relation.ReflTransGen.refl fun row => ?_
  refine raiseHttp_of Relation.ReflTransGen.refl fun _ => ?_
  split
  · exact Relation.ReflTransGen.refl
  simp only
  generalize hdb : (if row.comments = comment then db
      else updateComment db id fun c =>
        { c with comments := comment, editedUsersID := some user.id }) = edited
  have hedited : Writes cfg may db edited := by
    rw [← hdb]
    split
    · exact Relation.ReflTransGen.refl
    · exact side_writes (Nat.le_refl _)
  refine hedited.trans ?_
  split
  · exact side_writes (Nat.le_refl _)
  · exact Relation.ReflTransGen.refl

theorem setDeleter_writes (credential : Credential) (name : String) (id : Nat)
    (deleter : Option Nat) (detail next : String) :
    Writes cfg may db (setDeleter cfg db user credential name id deleter detail next).2 := by
  refine getPkgOrBase_of Relation.ReflTransGen.refl fun b _ _ _ => ?_
  refine getPkgbaseComment_of Relation.ReflTransGen.refl fun row => ?_
  split
  · exact Relation.ReflTransGen.refl
  · exact side_writes (Nat.le_refl _)

/-! ### Ownership -/

theorem pkgbaseDisownPost_writes (hwf : WellFormed cfg db) (hg : Grants db user may)
    (name comments : String) (confirm : Bool) (next : String) (now : Nat) :
    Writes cfg may db (pkgbaseDisownPost cfg db user name comments confirm next now).2 := by
  refine getPkgOrBase_of Relation.ReflTransGen.refl fun b hb _ _ => ?_
  refine raiseHttp_of Relation.ReflTransGen.refl fun _ => ?_
  simp only
  split
  · exact Relation.ReflTransGen.refl
  split
  · exact Relation.ReflTransGen.refl
  generalize hdb : (if b.maintainerUID ≠ some user.id ∧
    (comaintainerIDs db b.id).contains (some user.id) = false then
    updateClosureComment cfg db b .orphan comments none else db) = commented
  have hcommented : Writes cfg may db commented := by
    rw [← hdb]
    split
    · exact updateClosureComment_writes _ _ _ _
    · exact Relation.ReflTransGen.refl
  have hmem : b ∈ commented.packageBases := by
    rw [← hdb]
    split
    · rw [packageBases_updateClosureComment]
      exact hb
    · exact hb
  have hdisowned : Writes cfg may db (pkgbaseDisownInstance cfg commented user b now).2 := by
    refine hcommented.trans (pkgbaseDisownInstance_writes (hcommented.wellFormed hwf) hmem hg.actor
      (hg.maintainer b hb) fun hcred => ?_)
    rcases hasCredential_cases rfl hcred with hel | hmem'
    · exact hg.elevated hel _
    · simp at hmem'
  split
  · rename_i heq
    rw [heq] at hdisowned
    exact hdisowned
  · rename_i outcome _ heq
    rw [Outcome.response_snd]
    exact hdisowned

theorem elevated_of_credential {c : Credential} (hc : credFilters c = packageMaintainerOrDev)
    (h : hasCredential user c [] = true) : user.isElevated = true := by
  rcases hasCredential_cases hc h with hel | hmem
  · exact hel
  · simp at hmem

/-- The adoption of a base by, or on behalf of, one of its comaintainers. -/
def AdoptsListed (cfg : Config) (db : Db) (user : User) (name : String) (via : Nat) : Prop :=
  user.isElevated = true ∧ ∃ b, baseNamed cfg db name = some b ∧
    isComaintainer db b.id (grant user (pendingAdoptionRequest db b via)).1 = true

theorem pkgbaseAdoptPost_writes (hwf : WellFormed cfg db) (name next : String) (via now : Nat)
    (hadopt : user.isElevated = true → may.adopt)
    (hdouble : AdoptsListed cfg db user name via → may.double) :
    Writes cfg may db (pkgbaseAdoptPost cfg db user name next via now).2 := by
  refine getPkgOrBase_of Relation.ReflTransGen.refl fun b hb _ hnamed => ?_
  simp only
  split
  · rename_i hopen
    rw [Outcome.response_snd]
    refine pkgbaseAdoptInstance_writes hwf (Present.of_mem hb) _ (fun hcred => ?_) fun hcred => ?_
    · have hel := elevated_of_credential rfl hcred
      rw [if_pos hcred]
      refine ⟨hadopt hel, ?_⟩
      cases hlisted : isComaintainer db b.id (grant user (pendingAdoptionRequest db b via)).1 with
      | true => exact Or.inl (hdouble ⟨hel, b, hnamed, hlisted⟩)
      | false => exact Or.inr rfl
    · intro b' hb' hid
      rw [hwf.base_eq hb' hb hid]
      simpa [hcred] using hopen
  · exact Relation.ReflTransGen.refl

theorem comaintainerNames_nil {baseID : Nat}
    (h : ∀ c ∈ db.packageComaintainers, c.of baseID = false) :
    comaintainerNames db baseID = [] := by
  have hnone : (db.packageComaintainers.filter (·.of baseID)) = [] :=
    List.filter_eq_nil_iff.mpr fun c hc => by simp [h c hc]
  simp [comaintainerNames, hnone]

/-- The form for the comaintainers of an orphan, filled in with known names. -/
def StaffsOrphan (cfg : Config) (db : Db) (name : String) (users : List String) : Prop :=
  ∃ b ∈ db.packageBases, cfg.sameName b.name name = true ∧ b.maintainerUID = none ∧
    users ≠ [] ∧ ∀ username ∈ users, (userNamed cfg db username).isSome

theorem pkgbaseComaintainersPost_writes (hwf : WellFormed cfg db) (hg : Grants db user may)
    (name : String) (users : List String)
    (hstray : user.isElevated = true → StaffsOrphan cfg db name users → may.stray) :
    Writes cfg may db (pkgbaseComaintainersPost cfg db user name users).2 := by
  refine getPkgOrBase_of Relation.ReflTransGen.refl fun b hb hname _ => ?_
  refine unless_of Relation.ReflTransGen.refl fun hcred => ?_
  have hmay : may.manage b.id := by
    rcases hasCredential_cases rfl hcred with hel | hmem
    · exact hg.elevated hel _
    · exact hg.maintainer b hb (List.mem_singleton.mp hmem).symm
  simp only
  generalize hrecords : comaintainerNames db b.id = records
  have hremoved := removeComaintainers_restaffs cfg db b.id
    (records.filter fun username => !users.contains username)
  have hapart := removeComaintainers_apart cfg db b
    (records.filter fun username => !users.contains username)
  -- What is left after the removal was there before it.
  have hold : ∀ c ∈ (removeComaintainers cfg db b.id
      (records.filter fun username => !users.contains username)).packageComaintainers,
      c.of b.id = true → ∃ c₀ ∈ db.packageComaintainers, c₀.of b.id = true := by
    intro c hc hof
    obtain ⟨c₀, hc₀, rfl⟩ := Table.mem_update.mp hc
    refine ⟨c₀, (Table.mem_delete.mp hc₀).1, ?_⟩
    by_contra hne
    rw [if_neg hne] at hof
    exact hne hof
  split
  · refine hremoved.writes hwf hmay ⟨b, hb, rfl⟩ (Or.inr (Or.inr hold)) (Or.inr ?_)
    intro b' hb' hid
    rw [hwf.base_eq hb' hb hid]
    exact hapart
  · rename_i added hadded
    obtain ⟨hadd, hapart'⟩ := addComaintainers_restaffs hadded
    have hknown := (addComaintainers_ok hadded).2
    refine (hremoved.trans hadd).writes hwf hmay ⟨b, hb, rfl⟩ ?_ (Or.inr ?_)
    rotate_left
    · intro b' hb' hid
      rw [hwf.base_eq hb' hb hid]
      exact hapart.trans hapart'
    by_cases hsome : ∃ c₀ ∈ db.packageComaintainers, c₀.of b.id = true
    · exact Or.inr (Or.inr fun _ _ _ => hsome)
    have hnone : ∀ c ∈ db.packageComaintainers, c.of b.id = false := fun c hc => by
      by_contra hof
      exact hsome ⟨c, hc, by simpa using hof⟩
    have hnil : records = [] := hrecords.symm.trans (comaintainerNames_nil hnone)
    subst hnil
    by_cases hm : b.maintainerUID = none
    · by_cases hempty : users = []
      · subst hempty
        obtain rfl := Except.ok.inj hadded
        exact Or.inr (Or.inr hold)
      · refine Or.inl (hstray ?_ ⟨b, hb, hname, hm, hempty, fun username hu => ?_⟩)
        · rcases hasCredential_cases rfl hcred with hel | hmem
          · exact hel
          · rw [List.mem_singleton, hm] at hmem
            cases hmem
        · exact hknown username (List.mem_filter.mpr ⟨List.mem_dedup.mpr hu, by simp⟩)
    · refine Or.inr (Or.inl fun b' hb' hid => ?_)
      rw [hwf.base_eq hb' hb hid]
      exact hm

/-! ### Requests, deletions and merges -/

theorem requestCheck_ok {name type : String} {mergeInto : Option String} {comments : String}
    {b : PackageBase} {reqType : RequestType}
    (h : requestCheck cfg db name type mergeInto comments = .ok (b, reqType)) :
    baseNamed cfg db name = some b ∧
      validateRequest cfg db b reqType comments mergeInto = .ok () := by
  unfold requestCheck at h
  split at h
  · cases h
  rename_i b' hb'
  split at h
  · cases h
  split at h
  · cases h
  rename_i hvalid
  obtain ⟨rfl, rfl⟩ := Prod.mk.inj (Except.ok.inj h)
  exact ⟨hb', hvalid⟩

/-- The form asks for the adoption of an orphan, and only once. -/
theorem validateAdoption_ok {b : PackageBase} {comments : String} {mergeInto : Option String}
    (h : validateRequest cfg db b .adoption comments mergeInto = .ok ()) :
    b.maintainerUID = none ∧ Unrequested db b.id := by
  unfold validateRequest at h
  split at h
  · cases h
  simp only [validateAdoption] at h
  split at h
  · cases h
  rename_i horphan
  split at h
  · cases h
  rename_i hnone
  refine ⟨by simpa using horphan, fun r hr hbase => ?_⟩
  have hother := List.any_eq_false.mp (Bool.not_eq_true _ ▸ hnone) r hr
  simpa [PackageRequest.concerns, hbase] using hother

/-- An orphan request that is granted as soon as it is filed. -/
def AutoOrphans (cfg : Config) (db : Db) (name type : String) (mergeInto : Option String)
    (comments : String) (now : Nat) (b : PackageBase) : Prop :=
  requestCheck cfg db name type mergeInto comments = .ok (b, .orphan) ∧ b.flagged cfg now = true

/-- The maintainer's deletion request, soon after the submission. -/
def AutoDeletes (cfg : Config) (db : Db) (user : User) (name type : String)
    (mergeInto : Option String) (comments : String) (now : Nat) (b : PackageBase) : Prop :=
  requestCheck cfg db name type mergeInto comments = .ok (b, .deletion) ∧
    b.maintainerUID = some user.id ∧ b.outdated cfg now = true

theorem pkgbaseRequestPost_writes (hwf : WellFormed cfg db) (hg : Grants db user may)
    (name type : String) (mergeInto : Option String) (comments : String) (now : Nat)
    (horphan : ∀ b, AutoOrphans cfg db name type mergeInto comments now b →
      may.accept ∧ (may.stray ∨ ∀ c ∈ db.packageComaintainers, c.of b.id = false))
    (hdelete : ∀ b, AutoDeletes cfg db user name type mergeInto comments now b →
      may.desert ∨ OnlyPending .deletion b db) :
    Writes cfg may db (pkgbaseRequestPost cfg db user name type mergeInto comments now).2 := by
  unfold pkgbaseRequestPost
  split
  · exact Relation.ReflTransGen.refl
  rename_i b reqType hcheck
  obtain ⟨hnamed, hvalid⟩ := requestCheck_ok hcheck
  have hb := (baseNamed_mem hnamed).1
  have hfiled : Writes cfg may db
      (insertRequest db (newRequest reqType user b mergeInto comments "" now)) := by
    refine file_writes (Present.of_mem hb) mergeInto comments "" ?_
    rintro rfl b' hb' hid
    rw [hwf.base_eq hb' hb hid]
    exact validateAdoption_ok hvalid
  simp only
  split
  · rename_i hcond
    obtain ⟨rfl, hflagged⟩ := hcond
    obtain ⟨haccept, hstray⟩ := horphan b ⟨hcheck, hflagged⟩
    have hreleased : Write cfg may
        (insertRequest db (newRequest .orphan user b mergeInto comments "" now))
        (setMaintainer (insertRequest db (newRequest .orphan user b mergeInto comments "" now))
          b.id none) := .release hstray
    refine (hfiled.tail hreleased).tail (.accept haccept fun r hr hid => ?_)
    rcases mem_insertRequest hr with hr | rfl
    · have hlt : r.id < db.nextID := hwf.requests.lt r hr
      omega
    · rfl
  split
  · rename_i hcond
    obtain ⟨rfl, hm, houtdated⟩ := hcond
    rw [Outcome.response_snd]
    refine hfiled.trans (pkgbaseDeleteInstance_writes (hfiled.wellFormed hwf)
      (Present.of_mem hb) (hg.maintainer b hb hm) ?_)
    refine (hdelete b ⟨hcheck, hm, houtdated⟩).imp id fun honly r hr hbase hpending => ?_
    rcases mem_insertRequest hr with hr | rfl
    · exact honly r hr hbase hpending
    · rfl
  · exact hfiled

/-- What the delete form goes through for. -/
def Deletes (cfg : Config) (db : Db) (user : User) (name : String) (confirm : Bool)
    (comments : String) (b : PackageBase) : Prop :=
  baseNamed cfg db name = some b ∧ user.isElevated = true ∧ confirm = true ∧
    optionalComment cfg comments = .ok ()

theorem pkgbaseDeletePost_writes (hwf : WellFormed cfg db) (hg : Grants db user may)
    (name : String) (confirm : Bool) (comments next : String) (now : Nat)
    (hdesert : ∀ b, Deletes cfg db user name confirm comments b →
      may.desert ∨ OnlyPending .deletion b db) :
    Writes cfg may db (pkgbaseDeletePost cfg db user name confirm comments next now).2 := by
  refine getPkgOrBase_of Relation.ReflTransGen.refl fun b hb _ hnamed => ?_
  refine unless_of Relation.ReflTransGen.refl fun hcred => ?_
  refine unless_of Relation.ReflTransGen.refl fun hconfirm => ?_
  refine raiseHttp_of Relation.ReflTransGen.refl fun hcomment => ?_
  simp only
  rw [Outcome.response_snd]
  have hel : user.isElevated = true := elevated_of_credential rfl hcred
  have hcommented : Writes cfg may db
      (updateClosureComment cfg db b .deletion comments none) :=
    updateClosureComment_writes _ _ _ _
  have hmem : b ∈ (updateClosureComment cfg db b .deletion comments none).packageBases := by
    rw [packageBases_updateClosureComment]
    exact hb
  refine hcommented.trans (pkgbaseDeleteInstance_writes (hcommented.wellFormed hwf)
    (Present.of_mem hmem) (hg.elevated hel _) ?_)
  exact (hdesert b ⟨hnamed, hel, hconfirm, hcomment⟩).imp id fun honly =>
    honly.updateClosureComment

/-- What the merge form goes through for. -/
def Merges (cfg : Config) (db : Db) (user : User) (name into comments : String) (confirm : Bool)
    (b : PackageBase) : Prop :=
  baseNamed cfg db name = some b ∧ user.isElevated = true ∧ confirm = true ∧
    optionalComment cfg comments = .ok () ∧
    ∃ target, baseNamed cfg db into = some target ∧ b.id ≠ target.id

theorem pkgbaseMergePost_writes (hwf : WellFormed cfg db) (hg : Grants db user may)
    (name into comments : String) (confirm : Bool) (next : String) (now : Nat)
    (hdesert : ∀ b, Merges cfg db user name into comments confirm b →
      may.desert ∨ OnlyPending .merge b db) :
    Writes cfg may db (pkgbaseMergePost cfg db user name into comments confirm next now).2 := by
  refine getPkgOrBase_of Relation.ReflTransGen.refl fun b hb _ hnamed => ?_
  refine unless_of Relation.ReflTransGen.refl fun hcred => ?_
  refine unless_of Relation.ReflTransGen.refl fun hconfirm => ?_
  split
  · exact Relation.ReflTransGen.refl
  rename_i target htarget
  split
  · exact Relation.ReflTransGen.refl
  rename_i hne
  refine raiseHttp_of Relation.ReflTransGen.refl fun hcomment => ?_
  simp only
  rw [Outcome.response_snd]
  have hel : user.isElevated = true := elevated_of_credential rfl hcred
  have hcommented : Writes cfg may db
      (updateClosureComment cfg db b .merge comments (some target)) :=
    updateClosureComment_writes _ _ _ _
  have hbases := packageBases_updateClosureComment cfg db b .merge comments (some target)
  refine hcommented.trans (pkgbaseMergeInstance_writes (hcommented.wellFormed hwf)
    (Present.of_mem ?_) ?_ hne (hg.elevated hel _) ?_)
  · rw [hbases]
    exact hb
  · rw [hbases]
    exact (baseNamed_mem htarget).1
  · exact (hdesert b ⟨hnamed, hel, hconfirm, hcomment, target, htarget, hne⟩).imp id
      fun honly => honly.updateClosureComment

end

end Aurweb
