/-
Whose account can be deleted, and by whom.

An edit is for accounts of the editor's type and below, and gives away no type above it.  A
deletion asks for the same credential and not for the types.  So nobody rises above the types of
those who edit, and an account above all of them goes exactly when an elevated one among them
deletes it.
-/
import Aurweb.Proofs.SiteWrites

namespace Aurweb

/-- Whose edit or deletion of an account it is. -/
def Op.editsAccount : Op → Option Nat
  | .post uid _ (.accountEdit ..) => some uid
  | .post uid _ (.accountDelete ..) => some uid
  | _ => none

/-- The account is edited or deleted by a user of type `k` at most. -/
def Op.Within (k : AccountType) (db : Db) (op : Op) : Prop :=
  ∃ uid, op.editsAccount = some uid ∧
    ∀ user, db.user? uid = some user → user.accountType.id ≤ k.id

/-- There is no row that points to the account and would have to point to nobody. -/
structure Erasable (db : Db) (uid : Nat) : Prop where
  votes : ∀ v ∈ db.votes, v.userID ≠ uid
  voteInfo : ∀ v ∈ db.voteInfo, v.submitterID ≠ uid
  terms : ∀ a ∈ db.acceptedTerms, a.usersID ≠ uid

/-- An elevated user confirms the deletion of an account of a type above `k`. -/
def Op.Overrules (cfg : Config) (k : AccountType) (db : Db) : Op → Prop
  | .post uid _ (.accountDelete name confirm validPassword) =>
      confirm = true ∧ validPassword = true ∧ ∃ user target, db.user? uid = some user ∧
        user.isElevated = true ∧ userNamed cfg db name = some target ∧
        k.id < target.accountType.id ∧ Erasable db target.id
  | _ => False

/-- The accounts of a type above `k` are there. -/
def Remain (k : AccountType) (db db' : Db) : Prop :=
  ∀ u ∈ db.users, k.id < u.accountType.id → ∃ u' ∈ db'.users, u'.id = u.id

section

variable {cfg : Config} {k : AccountType} {db db' db'' : Db} {uid : Nat}

/-! ### Edits -/

/-- The accounts above `k` are the same rows, and this one is not among them. -/
structure Lowly (k : AccountType) (uid : Nat) (db db' : Db) : Prop where
  same : ∀ u, k.id < u.accountType.id → (u ∈ db'.users ↔ u ∈ db.users)
  low : ∀ u ∈ db'.users, u.id = uid → u.accountType.id ≤ k.id

theorem Lowly.trans (h₁ : Lowly k uid db db') (h₂ : Lowly k uid db' db'') :
    Lowly k uid db db'' :=
  ⟨fun u habove => (h₂.same u habove).trans (h₁.same u habove), h₂.low⟩

theorem lowly_updateUser (hlow : ∀ u ∈ db.users, u.id = uid → u.accountType.id ≤ k.id)
    {f : User → User} (hf : ∀ u ∈ db.users, u.id = uid → (f u).accountType.id ≤ k.id) :
    Lowly k uid db (updateUser db uid f) := by
  have hrow : ∀ u, u ∈ (updateUser db uid f).users ↔
      ∃ u₀ ∈ db.users, u = if u₀.id = uid then f u₀ else u₀ := by
    intro u
    simp only [updateUser, Table.mem_update, beq_iff_eq]
    exact exists_congr fun u₀ => and_congr_right fun _ => eq_comm
  constructor
  · intro u habove
    rw [hrow]
    constructor
    · rintro ⟨u₀, hu₀, rfl⟩
      by_cases hid : u₀.id = uid
      · rw [if_pos hid] at habove
        have hle := hf u₀ hu₀ hid
        omega
      · rw [if_neg hid]
        exact hu₀
    · intro hu
      refine ⟨u, hu, ?_⟩
      have hid : u.id ≠ uid := by
        intro hid
        have hle := hlow u hu hid
        omega
      rw [if_neg hid]
  · intro u hu hid
    obtain ⟨u₀, hu₀, rfl⟩ := (hrow u).mp hu
    by_cases hid₀ : u₀.id = uid
    · rw [if_pos hid₀]
      exact hf u₀ hu₀ hid₀
    · rw [if_neg hid₀] at hid
      exact absurd hid hid₀

theorem lowly_refl (hlow : ∀ u ∈ db.users, u.id = uid → u.accountType.id ≤ k.id) :
    Lowly k uid db db :=
  ⟨fun _ _ => Iff.rfl, hlow⟩

theorem lowly_login (hlow : ∀ u ∈ db.users, u.id = uid → u.accountType.id ≤ k.id) (now : Nat) :
    Lowly k uid db (login db uid now) := by
  unfold login
  split
  · exact lowly_refl hlow
  split
  · exact lowly_refl hlow
  · exact lowly_updateUser hlow fun u hu hid => hlow u hu hid

theorem edited_accountType (cfg : Config) (form : AccountForm) (token : String) (now : Nat)
    (user : User) :
    (user.edited cfg form token now).accountType = form.accountType.getD user.accountType := by
  unfold User.edited
  split <;> rfl

/-- The types of an edit that has been let through. -/
theorem mayEdit_types {editor user : User} {form : AccountForm} {now : Nat}
    (h : mayEdit cfg editor user form now = true) :
    user.accountType.id ≤ editor.accountType.id ∧
      (form.accountType.getD user.accountType).id ≤ editor.accountType.id := by
  unfold mayEdit canEditUser at h
  simp only [Bool.and_eq_true, decide_eq_true_eq] at h
  obtain ⟨⟨⟨⟨-, horder⟩, -⟩, -⟩, htype⟩ := h
  refine ⟨horder, ?_⟩
  rcases hform : form.accountType with _ | t
  · exact horder
  · simp only [hform, Bool.or_eq_true, beq_iff_eq, Bool.and_eq_true, decide_eq_true_eq] at htype
    rcases htype with hsame | ⟨-, hle⟩
    · rw [Option.getD_some, hsame]
      exact horder
    · exact hle

/-- Whoever edits stays within their own type, on both sides of the edit. -/
theorem accountEdit_above (hwf : WellFormed cfg db) {editorID : Nat} {username : String}
    {form : AccountForm} {token : String} {now : Nat}
    (heditor : ∀ editor, db.user? editorID = some editor → editor.accountType.id ≤ k.id) :
    ∀ u, k.id < u.accountType.id →
      (u ∈ (accountEdit cfg db editorID uid username form token now).users ↔ u ∈ db.users) := by
  unfold accountEdit
  split
  swap
  · exact fun _ _ => Iff.rfl
  rename_i editor user hfound huser
  split
  · exact fun _ _ => Iff.rfl
  rename_i hcond
  have hmay : mayEdit cfg editor user form now = true := by
    by_contra hnot
    exact hcond (by simp [hnot])
  have hle := heditor editor hfound
  obtain ⟨horder, htype⟩ := mayEdit_types hmay
  have hlow : ∀ u ∈ db.users, u.id = uid → u = user := by
    intro u hu hid
    exact hwf.users.eq_of_key hu (Db.user?_mem huser).1 (hid.trans (Db.user?_mem huser).2.symm)
  have hedited : Lowly k uid db (updateUser db uid (User.edited cfg form token now)) := by
    refine lowly_updateUser (fun u hu hid => ?_) fun u hu hid => ?_
    · rw [hlow u hu hid]
      omega
    · rw [hlow u hu hid, edited_accountType]
      omega
  have hpost : Lowly k uid db (accountEditPost cfg db editorID uid form token now) := by
    simp only [accountEditPost, hfound, huser, hmay, Bool.not_true, Bool.false_eq_true, if_false]
    split
    · exact hedited.trans (lowly_login hedited.low now)
    · exact hedited
  have hnamed : Lowly k uid _ (updateUser (accountEditPost cfg db editorID uid form token now) uid
      fun u => { u with username := username }) :=
    lowly_updateUser hpost.low fun u hu hid => hpost.low u hu hid
  exact (hpost.trans hnamed).same

/-! ### Deletions -/

theorem accountDeleteCheck_ok {user target : User} {name : String} {confirm validPassword : Bool} :
    accountDeleteCheck cfg db user name confirm validPassword = .ok target ↔
      userNamed cfg db name = some target ∧ hasCredential user .accountEdit [some target.id] = true ∧
        confirm = true ∧ validPassword = true ∧ Erasable db target.id := by
  unfold accountDeleteCheck
  rcases hfound : userNamed cfg db name with _ | found
  · simp
  simp only [Option.some.injEq]
  by_cases hcred : hasCredential user .accountEdit [some found.id] = true
  swap
  · rw [if_pos (by simp [hcred])]
    refine ⟨nofun, ?_⟩
    rintro ⟨rfl, hcred', -⟩
    exact absurd hcred' hcred
  rw [if_neg (by simp [hcred])]
  by_cases hconfirm : confirm = true
  swap
  · rw [if_pos (by simp [hconfirm])]
    exact ⟨nofun, fun h => absurd h.2.2.1 hconfirm⟩
  rw [if_neg (by simp [hconfirm])]
  by_cases hpasswd : validPassword = true
  swap
  · rw [if_pos (by simp [hpasswd])]
    exact ⟨nofun, fun h => absurd h.2.2.2.1 hpasswd⟩
  rw [if_neg (by simp [hpasswd])]
  by_cases hvotes : db.votes.any (·.userID == found.id) = true
  · rw [if_pos hvotes]
    refine ⟨nofun, ?_⟩
    rintro ⟨rfl, -, -, -, herasable⟩
    obtain ⟨v, hv, hid⟩ := List.any_eq_true.mp hvotes
    exact absurd (beq_iff_eq.mp hid) (herasable.votes v hv)
  rw [if_neg hvotes]
  by_cases hrows : (db.voteInfo.any (·.submitterID == found.id) ||
      db.acceptedTerms.any (·.usersID == found.id)) = true
  · rw [if_pos hrows]
    refine ⟨nofun, ?_⟩
    rintro ⟨rfl, -, -, -, herasable⟩
    rcases (Bool.or_eq_true _ _).mp hrows with hany | hany
    · obtain ⟨v, hv, hid⟩ := List.any_eq_true.mp hany
      exact absurd (beq_iff_eq.mp hid) (herasable.voteInfo v hv)
    · obtain ⟨a, ha, hid⟩ := List.any_eq_true.mp hany
      exact absurd (beq_iff_eq.mp hid) (herasable.terms a ha)
  rw [if_neg hrows]
  constructor
  · intro h
    obtain rfl := Except.ok.inj h
    simp only [Bool.or_eq_true, not_or] at hrows
    exact ⟨rfl, hcred, hconfirm, hpasswd, by simpa using hvotes, by simpa using hrows.1,
      by simpa using hrows.2⟩
  · rintro ⟨rfl, -⟩
    rfl

theorem mem_deleteAccount {u : User} :
    u ∈ (deleteAccount db uid).users ↔ u ∈ db.users ∧ u.id ≠ uid := by
  have hrow : u ∈ Table.delete (·.id == uid) db.users ↔ u ∈ db.users ∧ u.id ≠ uid := by
    rw [Table.mem_delete]
    simp
  exact hrow

/-- A deletion by a user of type `k` at most takes an account above `k` away only when it
overrules. -/
theorem accountDelete_above (hwf : WellFormed cfg db) {user : User}
    (hu : db.user? uid = some user) (huser : user.accountType.id ≤ k.id) {name : String}
    {confirm validPassword : Bool} {now : Nat}
    (hop : ¬(Op.post uid now (.accountDelete name confirm validPassword)).Overrules cfg k db) :
    ∀ u, k.id < u.accountType.id →
      (u ∈ (accountDeletePost cfg db user name confirm validPassword).2.users ↔ u ∈ db.users) := by
  intro u habove
  unfold accountDeletePost
  rcases hcheck : accountDeleteCheck cfg db user name confirm validPassword with e | target
  · exact Iff.rfl
  obtain ⟨hnamed, hcred, hconfirm, hpasswd, herasable⟩ := accountDeleteCheck_ok.mp hcheck
  have hother : u ∈ db.users → u.id ≠ target.id := by
    intro hmem hid
    obtain rfl := hwf.users.eq_of_key hmem (userNamed_mem hnamed).1 hid
    rcases hasCredential_cases rfl hcred with hel | hself
    · exact hop ⟨hconfirm, hpasswd, user, u, hu, hel, hnamed, habove, herasable⟩
    · have hown : u.id = user.id := Option.some.inj (List.mem_singleton.mp hself).symm
      have hsame : u = user := hwf.users.eq_of_key hmem (Db.user?_mem hu).1 hown
      rw [hsame] at habove
      omega
  simp only [mem_deleteAccount]
  exact ⟨And.left, fun hmem => ⟨hmem, hother hmem⟩⟩

/-! ### Every run -/

/-- The accounts above `k` are those that were there at first. -/
structure Spared (cfg : Config) (k : AccountType) (db₀ db : Db) : Prop where
  wellFormed : WellFormed cfg db
  same : ∀ u, k.id < u.accountType.id → (u ∈ db.users ↔ u ∈ db₀.users)

theorem Spared.remain {db₀ : Db} (h : Spared cfg k db₀ db) : Remain k db₀ db :=
  fun u hu habove => ⟨u, (h.same u habove).mpr hu, rfl⟩

theorem above_step (hwf : WellFormed cfg db) {op : Op} (hlow : op.Within k db)
    (hop : ¬op.Overrules cfg k db) :
    ∀ u, k.id < u.accountType.id → (u ∈ (step cfg db op).users ↔ u ∈ db.users) := by
  obtain ⟨actor, hactor, hlow⟩ := hlow
  cases op with
  | post uid now form =>
      simp only [step]
      rcases hu : db.user? uid with _ | user
      · exact fun _ _ => Iff.rfl
      cases form with
      | accountEdit =>
          obtain rfl := Option.some.inj hactor
          have hid : user.id = uid := (Db.user?_mem hu).2
          exact accountEdit_above hwf fun editor heditor => hlow editor (hid ▸ heditor)
      | accountDelete =>
          obtain rfl := Option.some.inj hactor
          exact accountDelete_above hwf hu (hlow user hu) hop
      | _ => cases hactor
  | _ => cases hactor

theorem Spared.step {db₀ : Db} (h : Spared cfg k db₀ db) {op : Op} (hlow : op.Within k db)
    (hop : ¬op.Overrules cfg k db) : Spared cfg k db₀ (step cfg db op) :=
  ⟨wellFormed_step h.wellFormed op, fun u habove =>
    (above_step h.wellFormed hlow hop u habove).trans (h.same u habove)⟩

/-- What overrules takes away an account that was there at first. -/
theorem Spared.not_remain {db₀ : Db} (h : Spared cfg k db₀ db) {op : Op}
    (hop : op.Overrules cfg k db) : ¬Remain k db₀ (Aurweb.step cfg db op) := by
  intro hremain
  unfold Op.Overrules at hop
  split at hop
  swap
  · exact hop
  obtain ⟨hconfirm, hpasswd, user, target, hu, hel, hnamed, habove, herasable⟩ := hop
  have hcred : hasCredential user .accountEdit [some target.id] = true := by
    unfold hasCredential
    rw [Bool.or_eq_true]
    exact Or.inr hel
  have hcheck := accountDeleteCheck_ok.mpr ⟨hnamed, hcred, hconfirm, hpasswd, herasable⟩
  obtain ⟨u, hmem, hid⟩ := hremain target ((h.same target habove).mp (userNamed_mem hnamed).1) habove
  simp only [Aurweb.step, hu, Form.post, accountDeletePost, hcheck, mem_deleteAccount] at hmem
  exact hmem.2 hid

/--
**Deletion respects the order of account types** in a run of edits and deletions by users of type
`k` at most exactly when no elevated user among them deletes an account above `k`.
-/
theorem remain_iff (cfg : Config) (k : AccountType) (db : Db) (ops : List Op)
    (hwf : WellFormed cfg db) (hlow : Run.Guarded (step cfg) (Op.Within k) db ops) :
    Run.Along (step cfg) (Remain k db) db ops ↔
      Run.Guarded (step cfg) (fun db op => ¬op.Overrules cfg k db) db ops :=
  Run.along_iff_guarded_of_inv (I := Spared cfg k db) (fun _ h => h.remain)
    (fun _ _ h hlow hop => h.step hlow hop)
    (fun _ _ h _ hremain hop => h.not_remain hop hremain) ⟨hwf, fun _ _ => Iff.rfl⟩ hlow

end

/-- `alice` is a user, `bob` a Package Maintainer, and `dora` a Developer. -/
def staffSite : Db where
  users := [account 1 .user "alice", account 2 .packageMaintainer "bob",
    account 3 .developer "dora"]
  nextID := 4

theorem staffSite_wellFormed : WellFormed siteConfig staffSite where
  bases := Table.Numbered.nil
  baseNames := by decide
  users := ⟨by decide, by decide⟩
  userNames := by decide
  requests := Table.Numbered.nil
  requestBases := by simp [staffSite]
  comaintainerBases := by simp [staffSite]
  comaintainerUsers := by simp [staffSite]
  voteBases := by simp [staffSite]
  votes := by simp [staffSite, Db.voteKeys]

/-- Bob deletes an account. -/
def bobDeletes (name : String) : Op := .post 2 1000000 (.accountDelete name true true)

theorem bobDeletes_within (name : String) :
    Run.Guarded (step siteConfig) (Op.Within .packageMaintainer) staffSite [bobDeletes name] := by
  refine ⟨⟨2, rfl, fun user hu => ?_⟩, trivial⟩
  obtain rfl := Option.some.inj hu
  decide

theorem remain_iff_bobDeletes :
    Run.Along (step siteConfig) (Remain .packageMaintainer staffSite) staffSite
        [bobDeletes "alice"] ↔
      Run.Guarded (step siteConfig) (fun db op => ¬op.Overrules siteConfig .packageMaintainer db)
        staffSite [bobDeletes "alice"] :=
  remain_iff siteConfig .packageMaintainer staffSite _ staffSite_wellFormed
    (bobDeletes_within "alice")

/-- Bob, who cannot edit the account of Dora, deletes it. -/
theorem not_remain_bobDeletes :
    Run.Guarded (step siteConfig) (Op.Within .packageMaintainer) staffSite [bobDeletes "dora"] ∧
      ¬Run.Along (step siteConfig) (Remain .packageMaintainer staffSite) staffSite
        [bobDeletes "dora"] := by
  refine ⟨bobDeletes_within "dora", fun h => ?_⟩
  obtain ⟨u, hu, hid⟩ := h.2 (account 3 .developer "dora") (by decide) (by decide)
  have hgone : ∀ u ∈ (step siteConfig staffSite (bobDeletes "dora")).users, u.id ≠ 3 := by
    decide +kernel
  exact hgone u hu hid

end Aurweb
