/-
What a form writes, whichever it is.

The bulk actions go through the selected bases one after the other, the account pages
write rows of `Users`, and `Form.post_writes` puts the routes together.  What a form
needs that no form should get is spelled out beside it: these are the conditions the
claims about the site turn on.
-/
import Aurweb.Proofs.Accounts
import Aurweb.Proofs.RouterWrites

namespace Aurweb

section

variable {cfg : Config} {may : May} {db : Db} {user : User}

/-! ### Several bases at once -/

theorem mem_selectedBases {ids : List Nat} {b : PackageBase} (h : b ∈ selectedBases db ids) :
    b ∈ db.packageBases := by
  unfold selectedBases at h
  obtain ⟨pkg, -, hbase⟩ := List.mem_filterMap.mp (List.mem_dedup.mp h)
  exact List.mem_of_find?_eq_some hbase

theorem selectedBases_distinct (hwf : WellFormed cfg db) (ids : List Nat) :
    (selectedBases db ids).Pairwise fun b b' => b.id ≠ b'.id := by
  have hnodup : (selectedBases db ids).Pairwise fun b b' => b ≠ b' := List.nodup_dedup _
  refine hnodup.imp_of_mem fun hb hb' hne hid => hne ?_
  exact hwf.base_eq (mem_selectedBases hb) (mem_selectedBases hb') hid

theorem packagesUnflag_writes (hg : Grants db user may) (ids : List Nat) :
    Writes cfg may db (packagesUnflag db user ids).2 := by
  unfold packagesUnflag
  simp only
  split
  · exact Relation.ReflTransGen.refl
  · exact unflagAll_writes hg _ db (fun b hb => mem_selectedBases hb) rfl

theorem packagesNotify_writes (ids : List Nat) :
    Writes cfg may db (packagesNotify db user ids).2 := by
  unfold packagesNotify
  simp only
  split
  · exact Relation.ReflTransGen.refl
  · exact foldl_writes (fun _ b => pkgbaseNotifyInstance_writes b) _ db

theorem packagesUnnotify_writes (ids : List Nat) :
    Writes cfg may db (packagesUnnotify db user ids).2 := by
  unfold packagesUnnotify
  simp only
  split
  · exact Relation.ReflTransGen.refl
  split
  · exact Relation.ReflTransGen.refl
  · exact foldl_writes (fun _ b => pkgbaseUnnotifyInstance_writes b) _ db

/-- One of the bases to adopt has the adopter among its comaintainers. -/
def AdoptsAnyListed (db : Db) (user : User) (ids : List Nat) (confirm : Bool) : Prop :=
  user.isElevated = true ∧ confirm = true ∧
    ∃ b ∈ selectedBases db ids, isComaintainer db b.id user.id = true

/-- A base that may be adopted, as long as the ones before it have not been in the way. -/
structure Adoptable (may : May) (user : User) (b : PackageBase) (db : Db) : Prop where
  present : Present b db
  listed : hasCredential user .pkgbaseAdopt [] = true →
    may.double ∨ isComaintainer db b.id user.id = false
  orphan : hasCredential user .pkgbaseAdopt [] = false →
    ∀ b' ∈ db.packageBases, b'.id = b.id → b'.maintainerUID = none

theorem Adoptable.adopt {b b' : PackageBase} {now : Nat} (h : Adoptable may user b' db) :
    Adoptable may user b' (pkgbaseAdoptInstance cfg db user b none now).2 where
  present := h.present.adopt none
  listed hcred := by
    unfold isComaintainer comaintainerIDs
    rw [pkgbaseAdoptInstance_comaintainers]
    exact h.listed hcred
  orphan hcred := by
    rw [pkgbaseAdoptInstance_bases hcred]
    exact h.orphan hcred

theorem packagesAdopt_writes (hwf : WellFormed cfg db) (ids : List Nat) (confirm : Bool)
    (now : Nat) (hadopt : user.isElevated = true → may.adopt)
    (hdouble : AdoptsAnyListed db user ids confirm → may.double) :
    Writes cfg may db (packagesAdopt cfg db user ids confirm now).2 := by
  unfold packagesAdopt
  simp only
  split
  · exact Relation.ReflTransGen.refl
  refine unless_of Relation.ReflTransGen.refl fun hconfirm => ?_
  split
  · exact Relation.ReflTransGen.refl
  rename_i hrefused
  rw [Outcome.response_snd]
  have hadoptable : ∀ b ∈ selectedBases db ids, Adoptable may user b db := by
    intro b hb
    refine ⟨Present.of_mem (mem_selectedBases hb), fun hcred => ?_, fun hcred b' hb' hid => ?_⟩
    · by_cases hlisted : isComaintainer db b.id user.id = true
      · exact Or.inl (hdouble ⟨elevated_of_credential rfl hcred, hconfirm, b, hb, hlisted⟩)
      · exact Or.inr (by simpa using hlisted)
    · rw [hwf.base_eq hb' (mem_selectedBases hb) hid]
      by_contra hmaintained
      exact hrefused ⟨hcred, b, hb, hmaintained⟩
  refine forEachBase_writes (I := Adoptable may user) ?_ ?_ _ db (selectedBases_distinct hwf ids)
    hwf hadoptable
  · intro b db hwf h
    exact pkgbaseAdoptInstance_writes hwf h.present none
      (fun hcred => ⟨hadopt (elevated_of_credential rfl hcred), h.listed hcred⟩) h.orphan
  · intro b b' db _ _ _ h _
    exact h.adopt

theorem disownAll_writes {db₀ : Db} (hg : Grants db₀ user may) (now : Nat) :
    ∀ (bases : List PackageBase) (db : Db), bases.Pairwise (fun b b' => b.id ≠ b'.id) →
      WellFormed cfg db → (∀ b ∈ bases, b ∈ db₀.packageBases ∧ b ∈ db.packageBases) →
      Writes cfg may db (disownAll cfg user now bases db).2
  | [], _, _, _, _ => Relation.ReflTransGen.refl
  | b :: bases, db, hdistinct, hwf, hmem => by
      obtain ⟨hb₀, hb⟩ := hmem b (by simp)
      rw [List.pairwise_cons] at hdistinct
      have hfirst : Writes cfg may db (pkgbaseDisownInstance cfg db user b now).2 :=
        pkgbaseDisownInstance_writes hwf hb hg.actor (hg.maintainer b hb₀) fun hcred =>
          hg.elevated (elevated_of_credential rfl hcred) _
      have hrest : ∀ b' ∈ bases, b' ∈ db₀.packageBases ∧
          b' ∈ (pkgbaseDisownInstance cfg db user b now).2.packageBases := by
        intro b' hb'
        obtain ⟨hb₀', hmem'⟩ := hmem b' (by simp [hb'])
        exact ⟨hb₀', pkgbaseDisownInstance_keeps hmem' (hdistinct.1 b' hb')⟩
      have hnext := hfirst.trans
        (disownAll_writes hg now bases _ hdistinct.2 (hfirst.wellFormed hwf) hrest)
      unfold disownAll
      cases hr : pkgbaseDisownInstance cfg db user b now with
      | mk outcome after =>
          rw [hr] at hnext hfirst
          rcases outcome with (⟨status, detail⟩ | message | exception) | u
          · exact hfirst
          · exact hnext
          · exact hfirst
          · exact hnext

theorem packagesDisown_writes (hwf : WellFormed cfg db) (hg : Grants db user may)
    (ids : List Nat) (confirm : Bool) (now : Nat) :
    Writes cfg may db (packagesDisown cfg db user ids confirm now).2 := by
  unfold packagesDisown
  simp only
  split
  · exact Relation.ReflTransGen.refl
  split
  · exact Relation.ReflTransGen.refl
  split
  · exact Relation.ReflTransGen.refl
  have hall : Writes cfg may db (disownAll cfg user now (selectedBases db ids) db).2 :=
    disownAll_writes hg now _ db (selectedBases_distinct hwf ids) hwf fun b hb =>
      ⟨mem_selectedBases hb, mem_selectedBases hb⟩
  split
  · rename_i heq
    rw [heq] at hall
    exact hall
  · rename_i heq
    rw [heq] at hall
    exact hall
  · rename_i heq
    rw [heq] at hall
    rw [Outcome.response_snd]
    exact hall

/-- What the bulk deletion goes through for. -/
def DeletesAll (db : Db) (user : User) (ids : List Nat) (confirm : Bool) : Prop :=
  ids ≠ [] ∧ confirm = true ∧ user.isElevated = true ∧
    (selectedPackages db ids).length = ids.dedup.length

theorem packagesDelete_writes (hwf : WellFormed cfg db) (hg : Grants db user may)
    (ids : List Nat) (confirm : Bool) (now : Nat)
    (hdesert : DeletesAll db user ids confirm → ∀ b ∈ selectedBases db ids,
      may.desert ∨ OnlyPending .deletion b db) :
    Writes cfg may db (packagesDelete cfg db user ids confirm now).2 := by
  unfold packagesDelete
  split
  · exact Relation.ReflTransGen.refl
  rename_i hids
  refine unless_of Relation.ReflTransGen.refl fun hconfirm => ?_
  refine unless_of Relation.ReflTransGen.refl fun hcred => ?_
  split
  · exact Relation.ReflTransGen.refl
  rename_i hlength
  rw [Outcome.response_snd]
  have hel : user.isElevated = true := elevated_of_credential rfl hcred
  have hselected : DeletesAll db user ids confirm :=
    ⟨by simpa using hids, hconfirm, hel, not_not.mp hlength⟩
  refine forEachBase_writes
    (I := fun b db => Present b db ∧ (may.desert ∨ OnlyPending .deletion b db)) ?_ ?_ _ db
    (selectedBases_distinct hwf ids) hwf fun b hb =>
      ⟨Present.of_mem (mem_selectedBases hb), hdesert hselected b hb⟩
  · rintro b db hwf ⟨hp, honly⟩
    exact pkgbaseDeleteInstance_writes hwf hp (hg.elevated hel _) honly
  · rintro b b' db hne hwf ⟨hp, -⟩ ⟨hp', honly⟩ hok
    obtain ⟨hpresent, hpending⟩ := pkgbaseDeleteInstance_keeps hwf hp hne hok
    exact ⟨hpresent hp', honly.imp id hpending⟩

theorem packagesPost_writes (hwf : WellFormed cfg db) (hg : Grants db user may)
    (ids : List Nat) (action : String) (confirm : Bool) (now : Nat)
    (hadopt : action = "adopt" → user.isElevated = true → may.adopt)
    (hdouble : action = "adopt" → AdoptsAnyListed db user ids confirm → may.double)
    (hdesert : action = "delete" → DeletesAll db user ids confirm →
      ∀ b ∈ selectedBases db ids, may.desert ∨ OnlyPending .deletion b db) :
    Writes cfg may db (packagesPost cfg db user ids action confirm now).2 := by
  unfold packagesPost
  split
  · exact packagesUnflag_writes hg ids
  · exact packagesNotify_writes ids
  · exact packagesUnnotify_writes ids
  · exact packagesAdopt_writes hwf ids confirm now (hadopt rfl) (hdouble rfl)
  · exact packagesDisown_writes hwf hg ids confirm now
  · exact packagesDelete_writes hwf hg ids confirm now (hdesert rfl)
  · exact Relation.ReflTransGen.refl

/-! ### Accounts -/

/-- Whoever maintains a base leaves comaintainers on it when they go. -/
def LeavesComaintainers (db : Db) (uid : Nat) : Prop :=
  ∃ b ∈ db.packageBases, b.maintainerUID = some uid ∧
    ∃ c ∈ db.packageComaintainers, c.of b.id = true ∧ c.usersID ≠ uid

theorem deleteAccount_writes {uid : Nat} (hmay : may.remove uid)
    (hstray : LeavesComaintainers db uid → may.stray)
    (hvotes : (∃ v ∈ db.packageVotes, v.usersID = uid) → may.uncount) :
    Writes cfg may db (deleteAccount db uid) := by
  unfold deleteAccount
  generalize Table.update (·.delUsersID == some uid) (fun c : PackageComment =>
    { c with delUsersID := none }) db.packageComments = comments
  have hside : Write cfg may db { db with packageComments := comments } :=
    .side rfl rfl rfl rfl rfl rfl (Nat.le_refl _) rfl
  refine (Writes.one hside).tail (.account hmay ?_ ?_)
  · by_cases hleaves : LeavesComaintainers db uid
    · exact Or.inl (hstray hleaves)
    · refine Or.inr fun b hb hm c hc hof => ?_
      by_contra hne
      exact hleaves ⟨b, hb, hm, c, hc, hof, hne⟩
  · by_cases hvoted : ∃ v ∈ db.packageVotes, v.usersID = uid
    · exact Or.inl (hvotes hvoted)
    · exact Or.inr fun v hv huid => hvoted ⟨v, hv, huid⟩

theorem accountDeletePost_writes (name : String) (confirm validPassword : Bool)
    (hremove : ∀ target,
      accountDeleteCheck cfg db user name confirm validPassword = .ok target →
      may.remove target.id)
    (hstray : ∀ target,
      accountDeleteCheck cfg db user name confirm validPassword = .ok target →
      LeavesComaintainers db target.id → may.stray)
    (hvotes : ∀ target,
      accountDeleteCheck cfg db user name confirm validPassword = .ok target →
      (∃ v ∈ db.packageVotes, v.usersID = target.id) → may.uncount) :
    Writes cfg may db (accountDeletePost cfg db user name confirm validPassword).2 := by
  unfold accountDeletePost
  split
  · exact Relation.ReflTransGen.refl
  rename_i target hcheck
  exact deleteAccount_writes (hremove target hcheck) (hstray target hcheck) (hvotes target hcheck)

/-- Only `Users` has changed, and neither who is in it nor what they are called. -/
def UsersOnly (db db' : Db) : Prop :=
  db' = { db with users := db'.users } ∧ db'.userKeys = db.userKeys

theorem UsersOnly.refl (db : Db) : UsersOnly db db := ⟨rfl, rfl⟩

theorem UsersOnly.trans {db₁ db₂ db₃ : Db} (h : UsersOnly db₁ db₂) (h' : UsersOnly db₂ db₃) :
    UsersOnly db₁ db₃ :=
  ⟨by rw [h'.1, h.1], h'.2.trans h.2⟩

theorem UsersOnly.update (db : Db) (p : User → Bool) {f : User → User}
    (hf : ∀ u, (f u).id = u.id ∧ (f u).username = u.username) :
    UsersOnly db { db with users := Table.update p f db.users } :=
  ⟨rfl, Table.map_update (fun u => by rw [(hf u).1, (hf u).2]) db.users⟩

theorem UsersOnly.wellFormed {db' : Db} (h : UsersOnly db db') (hwf : WellFormed cfg db) :
    WellFormed cfg db' := by
  obtain ⟨hframe, hkeys⟩ := h
  rw [hframe] at hkeys ⊢
  exact hwf.congr rfl hkeys rfl rfl rfl (Nat.le_refl _)

theorem UsersOnly.writes {db' : Db} (h : UsersOnly db db') (hwf : WellFormed cfg db) :
    Writes cfg may db db' := by
  have hwf' : WellFormed cfg db' := h.wellFormed hwf
  have hids : db'.users.map (·.id) = db.users.map (·.id) := by
    have hfst := congrArg (List.map Prod.fst) h.2
    simpa [Db.userKeys, List.map_map, Function.comp_def] using hfst
  rw [h.1]
  exact Writes.one (.users hids hwf'.userNames)

theorem login_usersOnly (db : Db) (uid now : Nat) : UsersOnly db (login db uid now) := by
  unfold login
  split
  · exact UsersOnly.refl db
  split
  · exact UsersOnly.refl db
  · exact UsersOnly.update db _ fun _ => ⟨rfl, rfl⟩

theorem accountVerify_usersOnly (db : Db) (token : String) (now : Nat) :
    UsersOnly db (accountVerify db token now) := by
  unfold accountVerify
  split
  · exact UsersOnly.refl db
  split
  · exact UsersOnly.refl db
  · exact UsersOnly.update db _ fun _ => ⟨rfl, rfl⟩

theorem accountVerifyResend_usersOnly (editorID uid : Nat) (token : String) (now : Nat) :
    UsersOnly db (accountVerifyResend cfg db editorID uid token now) := by
  unfold accountVerifyResend
  split
  · split
    · exact UsersOnly.refl db
    · exact UsersOnly.update db _ fun _ => ⟨rfl, rfl⟩
  · exact UsersOnly.refl db

theorem accountEditPost_usersOnly (editorID uid : Nat) (form : AccountForm) (token : String)
    (now : Nat) : UsersOnly db (accountEditPost cfg db editorID uid form token now) := by
  unfold accountEditPost
  split
  · split
    · exact UsersOnly.refl db
    have hedited : UsersOnly db (updateUser db uid (User.edited cfg form token now)) := by
      refine UsersOnly.update db _ fun u => ⟨edited_id cfg form token now u, ?_⟩
      unfold User.edited User.issue
      by_cases hmail : form.emailChanged u = true <;> simp [hmail]
    simp only
    split
    · exact hedited.trans (login_usersOnly _ uid now)
    · exact hedited
  · exact UsersOnly.refl db

theorem accountEdit_writes (hwf : WellFormed cfg db) (editorID uid : Nat) (username : String)
    (form : AccountForm) (token : String) (now : Nat) :
    Writes cfg may db (accountEdit cfg db editorID uid username form token now) := by
  unfold accountEdit
  split
  · split
    · exact Relation.ReflTransGen.refl
    rename_i hcond
    simp only [Bool.or_eq_true, not_or, Bool.not_eq_true] at hcond
    have hfree : usernameInUse cfg db (some uid) username = false := hcond.1.2
    have hedited : UsersOnly db (accountEditPost cfg db editorID uid form token now) :=
      accountEditPost_usersOnly editorID uid form token now
    have hwf' := hedited.wellFormed hwf
    refine (hedited.writes hwf).tail (.users ?_ ?_)
    · exact Table.map_update (f := fun u : User => { u with username := username })
        (fun _ => rfl) _
    · generalize accountEditPost cfg db editorID uid form token now = edited at hedited hwf' ⊢
      -- The name is nobody else's, and the edit has renamed nobody.
      have hother : ∀ u ∈ edited.users, u.id ≠ uid →
          cfg.sameName u.username username = false := by
        intro u hu hne
        have hkey : (u.id, u.username) ∈ db.userKeys := by
          rw [← hedited.2]
          exact List.mem_map_of_mem hu
        obtain ⟨u₀, hu₀, hrow⟩ := List.mem_map.mp hkey
        have hnot := List.any_eq_false.mp hfree u₀ hu₀
        rw [(Prod.mk.inj hrow).1, (Prod.mk.inj hrow).2] at hnot
        simpa [hne] using hnot
      unfold Table.update
      rw [List.map_map]
      refine List.Nodup.map_on ?_ (List.Nodup.of_map _ hwf'.userNames)
      intro u hu v hv heq
      by_cases huid : u.id = uid <;> by_cases hvid : v.id = uid
      · exact hwf'.users.eq_of_key hu hv (huid.trans hvid.symm)
      · have hne := hother v hv hvid
        simp [huid, hvid] at heq
        simp [Config.sameName, heq] at hne
      · have hne := hother u hu huid
        simp [huid, hvid] at heq
        simp [Config.sameName, heq] at hne
      · simp only [Function.comp_apply, huid, hvid, beq_iff_eq, if_false] at heq
        exact List.inj_on_of_nodup_map hwf'.userNames hu hv heq
  · exact Relation.ReflTransGen.refl

/-! ### Proposals and terms -/

theorem proposalPost_writes (proposal : Nat) (decision : String) (now : Nat) :
    Writes cfg may db (Proposals.packageMaintainerProposalPost db user proposal decision now).2 := by
  unfold Proposals.packageMaintainerProposalPost
  split
  · exact Relation.ReflTransGen.refl
  simp only
  unfold Proposals.proposalCommit
  split
  · exact Writes.one (.side rfl rfl rfl rfl rfl rfl (Nat.le_refl _) rfl)
  · exact Relation.ReflTransGen.refl

theorem termsOfServicePost_writes (uid : Nat) (accept : Bool) :
    Writes cfg may db (Terms.termsOfServicePost db uid accept).2 := by
  unfold Terms.termsOfServicePost
  split
  · exact Relation.ReflTransGen.refl
  split
  · exact Relation.ReflTransGen.refl
  rename_i accepted haccepted
  unfold Terms.acceptTerms at haccepted
  split at haccepted
  · cases haccepted
  split at haccepted
  · cases haccepted
  · rw [← Except.ok.inj haccepted]
    exact Writes.one (.side rfl rfl rfl rfl rfl rfl (Nat.le_refl _) rfl)

end

/-! ### Every form -/

/-- An orphan is given a maintainer. -/
def Form.Adopts (user : User) : Form → Prop
  | .adopt _ _ _ => user.isElevated = true
  | .packages _ action _ => action = "adopt" ∧ user.isElevated = true
  | _ => False

/-- The account is deleted. -/
def Form.Removes (cfg : Config) (db : Db) (user : User) (uid : Nat) : Form → Prop
  | .accountDelete name confirm validPassword =>
      ∃ target, accountDeleteCheck cfg db user name confirm validPassword = .ok target ∧
        target.id = uid
  | _ => False

/-- A request is accepted and not closed. -/
def Form.Accepts (cfg : Config) (db : Db) (now : Nat) : Form → Prop
  | .request name type mergeInto comments =>
      ∃ b, AutoOrphans cfg db name type mergeInto comments (timestamp now) b
  | _ => False

/-- A request that is not pending is closed again. -/
def Form.Recloses (db : Db) (user : User) : Form → Prop
  | .requestClose id _ => ∃ r ∈ db.packageRequests, r.id = id ∧ r.status ≠ .pending ∧
      hasCredential user .pkgreqClose [r.usersID] = true
  | _ => False

/-- A base is left with comaintainers and no maintainer. -/
def Form.Strays (cfg : Config) (db : Db) (user : User) (now : Nat) : Form → Prop
  | .request name type mergeInto comments =>
      ∃ b, AutoOrphans cfg db name type mergeInto comments (timestamp now) b ∧
        ∃ c ∈ db.packageComaintainers, c.of b.id = true
  | .comaintainers name users => user.isElevated = true ∧ StaffsOrphan cfg db name users
  | .accountDelete name confirm validPassword =>
      ∃ target, accountDeleteCheck cfg db user name confirm validPassword = .ok target ∧
        LeavesComaintainers db target.id
  | _ => False

/-- A base goes while a request of another type is pending on it. -/
def Form.Deserts (cfg : Config) (db : Db) (user : User) (now : Nat) : Form → Prop
  | .request name type mergeInto comments =>
      ∃ b, AutoDeletes cfg db user name type mergeInto comments (timestamp now) b ∧
        ¬OnlyPending .deletion b db
  | .delete name confirm comments _ =>
      ∃ b, Deletes cfg db user name confirm comments b ∧ ¬OnlyPending .deletion b db
  | .merge name into comments confirm _ =>
      ∃ b, Merges cfg db user name into comments confirm b ∧ ¬OnlyPending .merge b db
  | .packages ids action confirm =>
      action = "delete" ∧ DeletesAll db user ids confirm ∧
        ∃ b ∈ selectedBases db ids, ¬OnlyPending .deletion b db
  | _ => False

/-- An account goes, and its votes with it. -/
def Form.Uncounts (cfg : Config) (db : Db) (user : User) : Form → Prop
  | .accountDelete name confirm validPassword =>
      ∃ target, accountDeleteCheck cfg db user name confirm validPassword = .ok target ∧
        ∃ v ∈ db.packageVotes, v.usersID = target.id
  | _ => False

/-- A base is given one of its comaintainers for a maintainer. -/
def Form.Doubles (cfg : Config) (db : Db) (user : User) : Form → Prop
  | .adopt name _ via => AdoptsListed cfg db user name via
  | .packages ids action confirm => action = "adopt" ∧ AdoptsAnyListed db user ids confirm
  | _ => False

/-- What is allowed covers what the form does that none should. -/
structure Form.Covered (cfg : Config) (db : Db) (user : User) (now : Nat) (form : Form)
    (may : May) : Prop where
  adopt : form.Adopts user → may.adopt
  remove : ∀ uid, form.Removes cfg db user uid → may.remove uid
  accept : form.Accepts cfg db now → may.accept
  reclose : form.Recloses db user → may.reclose
  stray : form.Strays cfg db user now → may.stray
  desert : form.Deserts cfg db user now → may.desert
  uncount : form.Uncounts cfg db user → may.uncount
  double : form.Doubles cfg db user → may.double

private theorem or_of_imp_not {p q : Prop} (h : ¬q → p) : p ∨ q := by
  by_cases hq : q
  · exact Or.inr hq
  · exact Or.inl (h hq)

/-- **Every form is a chain of writes.** -/
theorem Form.post_writes {cfg : Config} {may : May} {db : Db} {user : User} {now : Nat}
    (hwf : WellFormed cfg db) (hg : Grants db user may) {form : Form}
    (h : form.Covered cfg db user now may) : Writes cfg may db (form.post cfg db user now) := by
  cases form with
  | requestClose id comments =>
      exact requestClosePost_writes hwf id comments _ fun r hr hid hstatus hcred =>
        h.reclose ⟨r, hr, hid, hstatus, hcred⟩
  | keywords name words => exact pkgbaseKeywords_writes hg name words
  | flag name comments => exact pkgbaseFlagPost_writes hwf name comments _
  | unflag name =>
      exact getPkgOrBase_of Relation.ReflTransGen.refl fun b hb _ _ =>
        (pkgbaseUnflagInstance_writes hg hb rfl).1
  | vote name => exact pkgbaseVote_writes hwf name _
  | unvote name => exact pkgbaseUnvote_writes hwf name
  | notify name =>
      exact getPkgOrBase_of Relation.ReflTransGen.refl fun b _ _ _ =>
        pkgbaseNotifyInstance_writes b
  | unnotify name =>
      exact getPkgOrBase_of Relation.ReflTransGen.refl fun b _ _ _ =>
        pkgbaseUnnotifyInstance_writes b
  | comment name text enableNotifications =>
      exact pkgbaseCommentsPost_writes name text enableNotifications
  | commentEdit name id text enableNotifications cancel next =>
      exact pkgbaseCommentPost_writes name id text enableNotifications cancel next
  | commentDelete name id next => exact setDeleter_writes _ name id _ _ next
  | commentUndelete name id next => exact setDeleter_writes _ name id _ _ next
  | disown name comments confirm next =>
      exact pkgbaseDisownPost_writes hwf hg name comments confirm next _
  | adopt name next via => exact pkgbaseAdoptPost_writes hwf name next via _ h.adopt h.double
  | comaintainers name users =>
      exact pkgbaseComaintainersPost_writes hwf hg name users fun hel hstaffs =>
        h.stray ⟨hel, hstaffs⟩
  | request name type mergeInto comments =>
      refine pkgbaseRequestPost_writes hwf hg name type mergeInto comments _ ?_ ?_
      · intro b hauto
        refine ⟨h.accept ⟨b, hauto⟩, ?_⟩
        by_cases hco : ∃ c ∈ db.packageComaintainers, c.of b.id = true
        · exact Or.inl (h.stray ⟨b, hauto, hco⟩)
        · refine Or.inr fun c hc => ?_
          by_contra hof
          exact hco ⟨c, hc, by simpa using hof⟩
      · intro b hauto
        exact or_of_imp_not fun honly => h.desert ⟨b, hauto, honly⟩
  | delete name confirm comments next =>
      exact pkgbaseDeletePost_writes hwf hg name confirm comments next _ fun b hdeletes =>
        or_of_imp_not fun honly => h.desert ⟨b, hdeletes, honly⟩
  | merge name into comments confirm next =>
      exact pkgbaseMergePost_writes hwf hg name into comments confirm next _ fun b hmerges =>
        or_of_imp_not fun honly => h.desert ⟨b, hmerges, honly⟩
  | packages ids action confirm =>
      exact packagesPost_writes hwf hg ids action confirm _
        (fun haction hel => h.adopt ⟨haction, hel⟩)
        (fun haction hlisted => h.double ⟨haction, hlisted⟩)
        fun haction hall b hb => or_of_imp_not fun honly => h.desert ⟨haction, hall, b, hb, honly⟩
  | accountDelete name confirm validPassword =>
      exact accountDeletePost_writes name confirm validPassword
        (fun target hcheck => h.remove target.id ⟨target, hcheck, rfl⟩)
        (fun target hcheck hleaves => h.stray ⟨target, hcheck, hleaves⟩)
        fun target hcheck hvoted => h.uncount ⟨target, hcheck, hvoted⟩
  | accountEdit uid username form token =>
      exact accountEdit_writes hwf user.id uid username form token now
  | resend uid token => exact (accountVerifyResend_usersOnly user.id uid token now).writes hwf
  | proposal id decision => exact proposalPost_writes id decision _
  | terms accept => exact termsOfServicePost_writes user.id accept

end Aurweb
