/-
No two accounts behind one mailbox.

What matters of `Users` is the pair of addresses of each account.  Registrations and edits
either leave the pairs alone or put one address and its canonical form next to each other,
after a check that no exempted account has the same one; the index rules out the others.
The exception is an edit whose object has gone stale: its `UPDATE` takes the canonical form
for unchanged and leaves what another edit has stored.
-/
import Aurweb.NormalizedEmail
import Aurweb.Proofs.Verification
import Aurweb.Lib.Run

namespace Aurweb.NormalizedEmail

variable {cfg : Config} {lib : Library} {db : Db}

/-! ### Addresses -/

structure Address where
  id : Nat
  email : String
  normalized : Option String
  deriving DecidableEq, Repr

def address (u : User) : Address where
  id := u.id
  email := u.email
  normalized := u.normalizedEmail

def addresses (db : Db) : List Address := db.users.map address

/-- Ids are handed out by a counter that starts at one. -/
structure Keyed (db : Db) : Prop where
  users : Table.Numbered (·.id) db.nextID (addresses db)
  positive : ∀ a ∈ addresses db, a.id ≠ 0
  next : db.nextID ≠ 0

theorem Keyed.of_ids {db' : Db} (h : Keyed db) (hnext : db'.nextID = db.nextID)
    (hids : ((addresses db').map (·.id)).Sublist ((addresses db).map (·.id))) : Keyed db' := by
  have hmem : ∀ a ∈ addresses db', ∃ a₀ ∈ addresses db, a₀.id = a.id := fun a ha =>
    List.mem_map.mp (hids.subset (List.mem_map_of_mem ha))
  refine ⟨⟨h.users.nodup.sublist hids, ?_⟩, ?_, ?_⟩
  · intro a ha
    obtain ⟨a₀, ha₀, hid⟩ := hmem a ha
    rw [← hid, hnext]
    exact h.users.lt a₀ ha₀
  · intro a ha
    obtain ⟨a₀, ha₀, hid⟩ := hmem a ha
    rw [← hid]
    exact h.positive a₀ ha₀
  · rw [hnext]
    exact h.next

theorem collide_comm (a b : Option String) : collide cfg a b = collide cfg b a := by
  cases a <;> cases b <;> simp [collide, Config.sameName, Bool.beq_comm]

theorem collide_trans {a b c : Option String} (hab : collide cfg a b = true)
    (hbc : collide cfg b c = true) : collide cfg a c = true := by
  cases a <;> cases b <;> cases c <;> simp_all [collide, Config.sameName]

theorem collide_self (n : String) : collide cfg (some n) (some n) = true := by
  simp [collide, Config.sameName]

/-- No exempted account but `uid` has another spelling of the address. -/
def Spared (lib : Library) (db : Db) (uid : Nat) (email : String) : Prop :=
  ∀ a ∈ addresses db, a.id ≠ uid → a.normalized = none →
    normalizeEmail lib a.email ≠ normalizeEmail lib email

/-- The address can be taken, as far as the index and the exempted accounts go. -/
structure Admits (cfg : Config) (lib : Library) (db : Db) (uid : Nat) (email : String) : Prop where
  index : ∀ a ∈ addresses db, a.id ≠ uid →
    collide cfg a.normalized (some (normalizeEmail lib email)) = false
  exempt : Spared lib db uid email

/-- The account had this address in `m`. -/
def Original (m : Db) (a : Address) : Prop := ∃ u ∈ m.users, u.id = a.id ∧ u.email = a.email

structure Kept (cfg : Config) (lib : Library) (m db : Db) : Prop where
  keyed : Keyed db
  canonical : ∀ a ∈ addresses db, ∀ n, a.normalized = some n → n = normalizeEmail lib a.email
  index : ∀ a ∈ addresses db, ∀ b ∈ addresses db, a.id ≠ b.id →
    collide cfg a.normalized b.normalized = false
  exempt : ∀ a ∈ addresses db, a.normalized = none → Original m a
  clash : ∀ a ∈ addresses db, ∀ b ∈ addresses db, a.normalized ≠ none → b.normalized = none →
    normalizeEmail lib a.email = normalizeEmail lib b.email → Original m a

/-- Two accounts with one canonical address have had it from the start. -/
theorem Kept.original {m : Db} (h : Kept cfg lib m db) {a b : Address} (ha : a ∈ addresses db)
    (hb : b ∈ addresses db) (hid : a.id ≠ b.id)
    (hsame : normalizeEmail lib a.email = normalizeEmail lib b.email) : Original m a := by
  cases hna : a.normalized with
  | none => exact h.exempt a ha hna
  | some n =>
      cases hnb : b.normalized with
      | none => exact h.clash a ha b hb (by simp [hna]) hnb hsame
      | some n' =>
          have hcollide := h.index a ha b hb hid
          rw [hna, hnb, h.canonical a ha n hna, h.canonical b hb n' hnb, hsame,
            collide_self] at hcollide
          cases hcollide

/-- The old rows, and one that has been set to an address it is admitted to. -/
theorem Kept.set {m db' : Db} (h : Kept cfg lib m db) {uid : Nat} {email : String}
    (hadmits : Admits cfg lib db uid email)
    (hkeyed : Keyed db')
    (hrows : ∀ a ∈ addresses db', a.id ≠ uid ∧ a ∈ addresses db ∨
      a.id = uid ∧ a.email = email ∧ a.normalized = some (normalizeEmail lib email)) :
    Kept cfg lib m db' := by
  refine ⟨hkeyed, ?_, ?_, ?_, ?_⟩
  · intro a ha n hn
    rcases hrows a ha with ⟨-, ha₀⟩ | ⟨-, hemail, hnorm⟩
    · exact h.canonical a ha₀ n hn
    · rw [hnorm, Option.some.injEq] at hn
      rw [← hn, hemail]
  · intro a ha b hb hid
    rcases hrows a ha with ⟨hane, ha₀⟩ | ⟨haid, -, hnorma⟩
    · rcases hrows b hb with ⟨-, hb₀⟩ | ⟨hbid, -, hnormb⟩
      · exact h.index a ha₀ b hb₀ hid
      · rw [hnormb]
        exact hadmits.index a ha₀ hane
    · rcases hrows b hb with ⟨hbne, hb₀⟩ | ⟨hbid, -, hnormb⟩
      · rw [hnorma, collide_comm]
        exact hadmits.index b hb₀ hbne
      · exact absurd (haid.trans hbid.symm) hid
  · intro a ha hnone
    rcases hrows a ha with ⟨-, ha₀⟩ | ⟨-, -, hnorm⟩
    · exact h.exempt a ha₀ hnone
    · rw [hnorm] at hnone
      cases hnone
  · intro a ha b hb hsome hnone hsame
    rcases hrows b hb with ⟨hbne, hb₀⟩ | ⟨-, -, hnorm⟩
    · rcases hrows a ha with ⟨-, ha₀⟩ | ⟨-, hemail, -⟩
      · exact h.clash a ha₀ b hb₀ hsome hnone hsame
      · rw [hemail] at hsame
        exact absurd hsame.symm (hadmits.exempt b hb₀ hbne hnone)
    · rw [hnorm] at hnone
      cases hnone

theorem Kept.same {m db' : Db} (h : Kept cfg lib m db) (hnext : db'.nextID = db.nextID)
    (haddresses : addresses db' = addresses db) : Kept cfg lib m db' := by
  refine ⟨h.keyed.of_ids hnext (by rw [haddresses]), ?_, ?_, ?_, ?_⟩
  all_goals rw [haddresses]
  · exact h.canonical
  · exact h.index
  · exact h.exempt
  · exact h.clash

/-! ### The migration -/

theorem mem_nullDuplicates {u : User} (hu : u ∈ (nullDuplicates cfg lib db).users) :
    ∃ w ∈ db.users, u.id = w.id ∧ u.email = w.email ∧
      (u.normalizedEmail = none ∨ u.normalizedEmail = w.normalizedEmail ∧
        ((members cfg db w).length ≤ 1 ∨
          keeperID lib db (members cfg db w) = some w.id)) := by
  obtain ⟨w, hw, rfl⟩ := List.mem_map.mp hu
  refine ⟨w, hw, ?_⟩
  by_cases hlen : (members cfg db w).length ≤ 1
  · have hshort : ¬1 < (members cfg db w).length := by omega
    simp [hshort, hlen]
  · by_cases hkeeper : keeperID lib db (members cfg db w) = some w.id
    · simp [hkeeper]
    · have hlong : 1 < (members cfg db w).length := by omega
      simp [hlong, hkeeper]

/-- Rows that collide are in one group. -/
theorem members_eq (db : Db) {u w : User} (h : collide cfg u.normalizedEmail w.normalizedEmail = true) :
    members cfg db u = members cfg db w := by
  refine List.filter_congr fun m _ => ?_
  by_cases hm : collide cfg m.normalizedEmail u.normalizedEmail = true
  · rw [hm, collide_trans hm h]
  · have hne : ¬collide cfg m.normalizedEmail w.normalizedEmail = true := by
      intro hc
      rw [collide_comm] at h
      exact hm (collide_trans hc h)
    simp only [Bool.not_eq_true] at hm hne
    rw [hm, hne]

theorem one_lt_of_mem {α β : Type} {f : α → β} {t : List α} {a b : α} (ha : a ∈ t) (hb : b ∈ t)
    (hne : f a ≠ f b) : 1 < t.length := by
  match t with
  | [] => cases ha
  | [c] =>
      rw [List.mem_singleton] at ha hb
      exact absurd (by rw [ha, hb]) hne
  | _ :: _ :: _ => simp

/-- At most one row of a group keeps its entry. -/
theorem nullDuplicates_index {u v : User} (hu : u ∈ (nullDuplicates cfg lib db).users)
    (hv : v ∈ (nullDuplicates cfg lib db).users) (hid : u.id ≠ v.id) :
    collide cfg u.normalizedEmail v.normalizedEmail = false := by
  obtain ⟨u₀, hu₀, huid, -, hunorm⟩ := mem_nullDuplicates hu
  obtain ⟨v₀, hv₀, hvid, -, hvnorm⟩ := mem_nullDuplicates hv
  rcases hunorm with hnone | ⟨hueq, hukeep⟩
  · simp [hnone, collide]
  · rcases hvnorm with hnone | ⟨hveq, hvkeep⟩
    · cases u.normalizedEmail <;> simp [hnone, collide]
    · by_contra hcollide
      rw [Bool.not_eq_false, hueq, hveq] at hcollide
      have hgroup := members_eq db hcollide
      have hself : ∀ w ∈ db.users, collide cfg w.normalizedEmail w.normalizedEmail = true →
          w ∈ members cfg db w := fun w hw hc => List.mem_filter.mpr ⟨hw, hc⟩
      have hback : collide cfg v₀.normalizedEmail u₀.normalizedEmail = true :=
        (collide_comm _ _).trans hcollide
      have hlong : 1 < (members cfg db u₀).length := by
        refine one_lt_of_mem (f := User.id) (hself u₀ hu₀ (collide_trans hcollide hback)) ?_
          (b := v₀) ?_
        · rw [hgroup]
          exact hself v₀ hv₀ (collide_trans hback hcollide)
        · rw [← huid, ← hvid]
          exact hid
      have hu' := hukeep.resolve_left (by omega)
      have hv' := hvkeep.resolve_left (by rw [← hgroup]; omega)
      rw [← hgroup, hu', Option.some.injEq] at hv'
      exact hid (by rw [huid, hvid, hv'])

theorem Keyed.upgrade (h : Keyed db) : Keyed (upgrade cfg lib db) := by
  refine h.of_ids (AccountMaint.users_deleteUsers _ _).2 ?_
  have hids : (addresses (NormalizedEmail.upgrade cfg lib db)).map (·.id) =
      (deleteSpamAccounts db).users.map (·.id) := by
    rw [show (deleteSpamAccounts db).users.map (·.id) =
      (backfill lib (deleteSpamAccounts db)).users.map (·.id) by simp [backfill]]
    simp only [addresses, NormalizedEmail.upgrade, nullDuplicates, List.map_map]
    refine List.map_congr_left fun u _ => ?_
    simp only [Function.comp_apply]
    split <;> rfl
  rw [hids, addresses, List.map_map]
  rw [deleteSpamAccounts, (AccountMaint.users_deleteUsers _ _).1]
  exact (Table.delete_sublist _ _).map _

theorem Kept.start (hkeyed : Keyed db) :
    Kept cfg lib (upgrade cfg lib db) (upgrade cfg lib db) := by
  have horiginal : ∀ a ∈ addresses (upgrade cfg lib db), Original (upgrade cfg lib db) a := by
    intro a ha
    obtain ⟨u, hu, rfl⟩ := List.mem_map.mp ha
    exact ⟨u, hu, rfl, rfl⟩
  refine ⟨hkeyed.upgrade, ?_, ?_, fun a ha _ => horiginal a ha,
    fun a ha _ _ _ _ _ => horiginal a ha⟩
  · intro a ha n hn
    obtain ⟨u, hu, rfl⟩ := List.mem_map.mp ha
    obtain ⟨w, hw, -, hemail, hnorm⟩ := mem_nullDuplicates hu
    obtain ⟨w₀, hw₀, rfl⟩ := List.mem_map.mp hw
    have hn' : u.normalizedEmail = some n := hn
    rcases hnorm with hnone | ⟨heq, -⟩
    · rw [hnone] at hn'
      cases hn'
    · rw [heq, Option.some.injEq] at hn'
      rw [← hn', show (address u).email = u.email from rfl, hemail]
  · intro a ha b hb hid
    obtain ⟨u, hu, rfl⟩ := List.mem_map.mp ha
    obtain ⟨v, hv, rfl⟩ := List.mem_map.mp hb
    exact nullDuplicates_index hu hv hid

/-! ### A form that has been found valid -/

/-- What its validation has made sure of and no other request can undo. -/
def Valid (lib : Library) (db : Db) : Submission → Prop
  | .register _ email => email ≠ "" ∧ Spared lib db 0 email
  | .edit loaded username form =>
      username ≠ "" ∧ form.email ≠ "" ∧
        (form.email ≠ loaded.email → Spared lib db loaded.id form.email) ∧
        ∀ a ∈ addresses db, a.id = loaded.id → a.normalized = none →
          loaded.normalizedEmail = none

/-- No account has become an exempted one. -/
def NoneExempted (db db' : Db) : Prop :=
  ∀ a ∈ addresses db', a.normalized = none → a ∈ addresses db

theorem Valid.later {db' : Db} {form : Submission} (h : Valid lib db form)
    (hsame : NoneExempted db db') : Valid lib db' form := by
  cases form with
  | register username email =>
      exact ⟨h.1, fun a ha hne hnone => h.2 a (hsame a ha hnone) hne hnone⟩
  | edit loaded username form =>
      obtain ⟨hname, hemail, hspared, hloaded⟩ := h
      refine ⟨hname, hemail, fun hchanged => ?_, ?_⟩
      · intro a ha hne hnone
        exact hspared hchanged a (hsame a ha hnone) hne hnone
      · intro a ha hid hnone
        exact hloaded a (hsame a ha hnone) hid hnone

theorem spared_of_emailInUse {uid : Nat} {current email : String} (hne : email ≠ current)
    (h : emailInUse cfg lib db uid current email = false) : Spared lib db uid email := by
  intro a ha hid hnone hsame
  obtain ⟨u, hu, rfl⟩ := List.mem_map.mp ha
  simp only [emailInUse, beq_iff_eq, hne, if_false, Bool.or_eq_false_iff] at h
  have hother : u ∈ db.users.filter (·.id != uid) :=
    List.mem_filter.mpr ⟨hu, by simpa [address] using hid⟩
  have hfree := List.any_eq_false.mp h.2 u hother
  apply hfree
  have hisNone : u.normalizedEmail = none := hnone
  have hspelling : normalizeEmail lib u.email = normalizeEmail lib email := hsame
  simp [hisNone, hspelling]

theorem valid_of_checkRegister (hanonymous : lib.validateEmail "N/A" = none)
    {username email : String} {form : Submission}
    (h : checkRegister cfg lib db username email = some form) : Valid lib db form := by
  unfold checkRegister at h
  split at h
  · rename_i hvalid
    obtain rfl := Option.some.inj h
    simp only [validForm, Bool.and_eq_true, bne_iff_ne, Bool.not_eq_true'] at hvalid
    obtain ⟨⟨⟨⟨-, hemail⟩, hlib⟩, -⟩, hfree⟩ := hvalid
    refine ⟨hemail, spared_of_emailInUse ?_ hfree⟩
    intro hna
    rw [hna, hanonymous] at hlib
    cases hlib
  · cases h

theorem valid_of_checkEdit (hkeyed : Keyed db) {editorID uid now : Nat} {username : String}
    {f : AccountForm} {form : Submission}
    (h : checkEdit cfg lib db editorID uid username f now = some form) : Valid lib db form := by
  unfold checkEdit at h
  split at h
  · cases h
  · rename_i loaded hedit
    split at h
    · rename_i hvalid
      obtain rfl := Option.some.inj h
      simp only [validForm, Bool.and_eq_true, bne_iff_ne, Bool.not_eq_true'] at hvalid
      obtain ⟨⟨⟨⟨hname, hemail⟩, -⟩, -⟩, hfree⟩ := hvalid
      have hmem : loaded ∈ db.users :=
        (Verification.editing_eq_some (s := ⟨db, [], 0⟩) hedit).1.1
      refine ⟨hname, hemail, fun hchanged => spared_of_emailInUse hchanged hfree, ?_⟩
      intro a ha hid hnone
      have hrow : a = address loaded :=
        hkeyed.users.eq_of_key ha (List.mem_map_of_mem hmem) hid
      rw [hrow] at hnone
      exact hnone
    · cases h

/-! ### Commits -/

theorem indexed_eq_false {row : User} :
    indexed cfg db row = false ↔ ∀ u ∈ db.users, u.id ≠ row.id →
      cfg.sameName u.username row.username = false ∧ cfg.sameName u.email row.email = false ∧
        collide cfg u.normalizedEmail row.normalizedEmail = false := by
  rw [indexed, List.any_eq_false]
  refine forall₂_congr fun u _ => ?_
  by_cases hid : u.id = row.id <;> simp [hid, and_assoc]

theorem admits_of_indexed {row : User} {uid : Nat} {email : String} (hid : row.id = uid)
    (hnorm : row.normalizedEmail = some (normalizeEmail lib email))
    (h : indexed cfg db row = false) (hspared : Spared lib db uid email) :
    Admits cfg lib db uid email := by
  refine ⟨?_, hspared⟩
  intro a ha hne
  obtain ⟨u, hu, rfl⟩ := List.mem_map.mp ha
  rw [← hnorm]
  exact (indexed_eq_false.mp h u hu (by rw [hid]; exact hne)).2.2

theorem Kept.commit_register {m : Db} (h : Kept cfg lib m db) {username email : String}
    (hvalid : Valid lib db (.register username email)) (token : String) (now : Nat) :
    Kept cfg lib m (commit cfg lib db token now (.register username email)) := by
  obtain ⟨hemail, hspared⟩ := hvalid
  simp only [commit]
  split
  · exact h
  · rename_i hindexed
    rw [Bool.not_eq_true] at hindexed
    have hrow : address (registered cfg lib db username email token now) =
        ⟨db.nextID, email, some (normalizeEmail lib email)⟩ := by
      simp [address, registered, User.issue, hemail]
    have hnorm : (registered cfg lib db username email token now).normalizedEmail =
        some (normalizeEmail lib email) := congrArg Address.normalized hrow
    have hid : (registered cfg lib db username email token now).id = db.nextID :=
      congrArg Address.id hrow
    have haddresses : (db.users ++ [registered cfg lib db username email token now]).map address =
        addresses db ++ [⟨db.nextID, email, some (normalizeEmail lib email)⟩] := by
      rw [List.map_append, List.map_singleton, hrow, addresses]
    have hnew : ∀ a ∈ addresses db, a.id ≠ db.nextID := fun a ha =>
      Nat.ne_of_lt (h.keyed.users.lt a ha)
    have hadmits : Admits cfg lib db db.nextID email :=
      admits_of_indexed hid hnorm hindexed fun a ha _ hnone =>
        hspared a ha (h.keyed.positive a ha) hnone
    refine h.set hadmits ⟨?_, ?_, Nat.succ_ne_zero _⟩ ?_
    · show Table.Numbered _ _ ((db.users ++ [_]).map address)
      rw [haddresses]
      exact h.keyed.users.insert rfl
    · intro a ha
      have ha' : a ∈ (db.users ++ [_]).map address := ha
      rw [haddresses, List.mem_append, List.mem_singleton] at ha'
      rcases ha' with ha₀ | rfl
      · exact h.keyed.positive a ha₀
      · exact h.keyed.next
    · intro a ha
      have ha' : a ∈ (db.users ++ [_]).map address := ha
      rw [haddresses, List.mem_append, List.mem_singleton] at ha'
      rcases ha' with ha₀ | rfl
      · exact Or.inl ⟨hnew a ha₀, ha₀⟩
      · exact Or.inr ⟨rfl, rfl, rfl⟩

theorem commit_edit {loaded stored : User} {username : String} {form : AccountForm}
    {token : String} {now : Nat} (hstored : db.user? loaded.id = some stored) :
    commit cfg lib db token now (.edit loaded username form) =
      if indexed cfg db (flush loaded (simple cfg lib username form token now loaded) stored) then
        db
      else
        updateUser db loaded.id fun _ =>
          flush loaded (simple cfg lib username form token now loaded) stored := by
  simp only [commit, hstored]

/-- The row an edit leaves. -/
theorem address_flush (cfg : Config) (lib : Library) (username : String) {form : AccountForm}
    (hemail : form.email ≠ "") (loaded stored : User) (token : String) (now : Nat) :
    address (flush loaded (simple cfg lib username form token now loaded) stored) =
      if form.email = loaded.email then address stored
      else ⟨stored.id, form.email,
        written loaded.normalizedEmail (some (normalizeEmail lib form.email))
          stored.normalizedEmail⟩ := by
  by_cases hsame : form.email = loaded.email
  · have hunchanged : form.emailChanged loaded = false := by simp [AccountForm.emailChanged, hsame]
    simp [address, flush, simple, User.edited, hunchanged, hsame, syncNormalizedEmail, written]
  · have hchanged : form.emailChanged loaded = true := by
      simp [AccountForm.emailChanged, hsame, hemail]
    simp [address, flush, simple, User.edited, hchanged, hsame, hemail, syncNormalizedEmail,
      written]

theorem username_flush (cfg : Config) (lib : Library) {username : String} (hname : username ≠ "")
    (form : AccountForm) (loaded stored : User) (token : String) (now : Nat) :
    (flush loaded (simple cfg lib username form token now loaded) stored).username =
      written loaded.username username stored.username := by
  simp [flush, simple, hname]

theorem addresses_updateUser {uid : Nat} {row : User} :
    addresses (updateUser db uid fun _ => row) =
      Table.update (·.id == uid) (fun _ => address row) (addresses db) :=
  Table.map_update_comm (fun _ => rfl) fun _ _ _ => rfl

theorem mem_addresses_updateUser {uid : Nat} {row : User} {a : Address}
    (ha : a ∈ addresses (updateUser db uid fun _ => row)) :
    a.id ≠ uid ∧ a ∈ addresses db ∨ a = address row := by
  rw [addresses_updateUser, Table.mem_update] at ha
  obtain ⟨a₀, ha₀, rfl⟩ := ha
  by_cases hid : a₀.id = uid
  · right
    rw [if_pos (by simpa using hid)]
  · left
    rw [if_neg (by simpa using hid)]
    exact ⟨hid, ha₀⟩

/-- An update of one row that keeps its id. -/
theorem Keyed.update (h : Keyed db) {uid : Nat} {row : User} (hid : row.id = uid) :
    Keyed (updateUser db uid fun _ => row) := by
  refine h.of_ids rfl ?_
  have hids : (addresses (updateUser db uid fun _ => row)).map (·.id) =
      (addresses db).map (·.id) := by
    rw [addresses_updateUser, Table.update, List.map_map]
    refine List.map_congr_left fun a _ => ?_
    by_cases ha : a.id = uid
    · simp [ha, address, hid]
    · simp [ha]
  rw [hids]

/-- A registration the indices let through is `account_register_post`'s, with the new column. -/
theorem commit_register (h : Keyed db) {username email token : String} {now : Nat}
    (hemail : email ≠ "")
    (hfree : indexed cfg db (registered cfg lib db username email token now) = false) :
    commit cfg lib db token now (.register username email) =
      updateUser (accountRegisterPost cfg db username email token now) db.nextID fun u =>
        { u with normalizedEmail := some (normalizeEmail lib email) } := by
  have hold : Table.update (·.id == db.nextID)
      (fun u : User => { u with normalizedEmail := some (normalizeEmail lib email) }) db.users =
      db.users := by
    refine (List.map_congr_left fun u hu => ?_).trans (List.map_id _)
    have hlt : u.id < db.nextID := h.users.lt (address u) (List.mem_map_of_mem hu)
    have hne : u.id ≠ db.nextID := by omega
    simp [hne]
  simp only [commit, hfree, updateUser, accountRegisterPost, Table.update, List.map_append,
    List.map_singleton]
  rw [Table.update] at hold
  rw [hold]
  simp [registered, User.issue, hemail]

/-- An object that was loaded before another edit gave the account another mailbox, and that
is given a new spelling of the old one.  What the index would turn away is not meant. -/
def Stale (cfg : Config) (lib : Library) (db : Db) : Submission → Prop
  | .register _ _ => False
  | .edit loaded username form =>
      form.email ≠ loaded.email ∧
        loaded.normalizedEmail = some (normalizeEmail lib form.email) ∧
        ∃ stored ∈ db.user? loaded.id,
          stored.normalizedEmail ≠ loaded.normalizedEmail ∧
          ∀ u ∈ db.users, u.id ≠ loaded.id →
            cfg.sameName u.username (written loaded.username username stored.username) = false ∧
              cfg.sameName u.email form.email = false

instance Stale.decidable : ∀ form : Submission, Decidable (Stale cfg lib db form)
  | .register _ _ => inferInstanceAs (Decidable False)
  | .edit loaded _ form => inferInstanceAs (Decidable (form.email ≠ loaded.email ∧ _))

theorem Kept.commit_edit {m : Db} (h : Kept cfg lib m db) {loaded : User} {username : String}
    {form : AccountForm} (hvalid : Valid lib db (.edit loaded username form))
    (hfresh : ¬Stale cfg lib db (.edit loaded username form)) (token : String) (now : Nat) :
    Kept cfg lib m (commit cfg lib db token now (.edit loaded username form)) := by
  obtain ⟨hname, hemail, hspared, hloaded⟩ := hvalid
  cases hstored : db.user? loaded.id with
  | none => simpa [commit, hstored] using h
  | some stored =>
      obtain ⟨hmem, hid⟩ := Db.user?_mem hstored
      have hrow := address_flush cfg lib username hemail loaded stored token now
      have huser := username_flush cfg lib hname form loaded stored token now
      rw [NormalizedEmail.commit_edit hstored]
      generalize flush loaded (simple cfg lib username form token now loaded) stored = row
        at hrow huser ⊢
      by_cases hindexed : indexed cfg db row = true
      · rw [if_pos hindexed]
        exact h
      rw [if_neg hindexed]
      rw [Bool.not_eq_true] at hindexed
      by_cases hsame : form.email = loaded.email
      · rw [if_pos hsame] at hrow
        refine h.same rfl ?_
        rw [addresses_updateUser, hrow, Table.update]
        refine (List.map_congr_left fun a ha => ?_).trans (List.map_id _)
        by_cases haid : a.id = loaded.id
        · have heq : a = address stored :=
            h.keyed.users.eq_of_key ha (List.mem_map_of_mem hmem) (haid.trans hid.symm)
          simp [heq]
        · simp [haid]
      · rw [if_neg hsame] at hrow
        have hrowid : row.id = loaded.id := (congrArg Address.id hrow).trans hid
        have hrowemail : row.email = form.email := congrArg Address.email hrow
        have hrownorm : row.normalizedEmail = some (normalizeEmail lib form.email) := by
          have hwritten : row.normalizedEmail = written loaded.normalizedEmail
            (some (normalizeEmail lib form.email)) stored.normalizedEmail :=
            congrArg Address.normalized hrow
          rw [hwritten, written]
          by_cases hstale : some (normalizeEmail lib form.email) = loaded.normalizedEmail
          · rw [if_pos hstale, hstale]
            by_contra hmoved
            refine hfresh ⟨hsame, hstale.symm, stored, hstored, hmoved, fun u hu hne => ?_⟩
            have hfree := indexed_eq_false.mp hindexed u hu (by rw [hrowid]; exact hne)
            rw [← huser, ← hrowemail]
            exact ⟨hfree.1, hfree.2.1⟩
          · rw [if_neg hstale]
        refine h.set (admits_of_indexed hrowid hrownorm hindexed (hspared hsame))
          (h.keyed.update hrowid) ?_
        intro a ha
        rcases mem_addresses_updateUser ha with hother | rfl
        · exact Or.inl hother
        · exact Or.inr ⟨hrowid, hrowemail, hrownorm⟩

theorem Kept.commit {m : Db} (h : Kept cfg lib m db) {form : Submission}
    (hvalid : Valid lib db form) (hfresh : ¬Stale cfg lib db form) (token : String) (now : Nat) :
    Kept cfg lib m (commit cfg lib db token now form) := by
  cases form with
  | register username email => exact h.commit_register hvalid token now
  | edit loaded username form => exact h.commit_edit hvalid hfresh token now

/-- Whatever is committed, no account becomes an exempted one. -/
theorem noneExempted_commit {form : Submission} (hvalid : Valid lib db form) (token : String)
    (now : Nat) : NoneExempted db (commit cfg lib db token now form) := by
  intro a ha hnone
  cases form with
  | register username email =>
      simp only [NormalizedEmail.commit] at ha
      split at ha
      · exact ha
      · have ha' : a ∈ (db.users ++ [registered cfg lib db username email token now]).map address :=
          ha
        rw [List.map_append, List.mem_append] at ha'
        rcases ha' with ha₀ | hnew
        · exact ha₀
        · rw [List.map_singleton, List.mem_singleton] at hnew
          rw [hnew] at hnone
          cases hnone
  | edit loaded username form =>
      obtain ⟨-, hemail, -, hloaded⟩ := hvalid
      cases hstored : db.user? loaded.id with
      | none => simpa [NormalizedEmail.commit, hstored] using ha
      | some stored =>
          obtain ⟨hmem, hid⟩ := Db.user?_mem hstored
          have hmem' : address stored ∈ addresses db := List.mem_map_of_mem hmem
          rw [commit_edit hstored] at ha
          split at ha
          · exact ha
          rcases mem_addresses_updateUser ha with ⟨-, ha₀⟩ | hrow
          · exact ha₀
          rw [address_flush _ _ _ hemail] at hrow
          by_cases hsame : form.email = loaded.email
          · rw [if_pos hsame] at hrow
            rw [hrow]
            exact hmem'
          · rw [if_neg hsame] at hrow
            rw [hrow] at hnone
            -- The column is empty only if it was and the loaded one was not.
            simp only [written] at hnone
            split at hnone
            · rename_i hkept
              rw [hloaded _ hmem' hid hnone] at hkept
              cases hkept
            · cases hnone

/-- The commit of a stale object leaves a canonical form that is not the address's. -/
theorem Kept.not_canonical {m : Db} (h : Kept cfg lib m db) {form : Submission}
    (hvalid : Valid lib db form) (hstale : Stale cfg lib db form) (token : String) (now : Nat) :
    ∃ a ∈ addresses (NormalizedEmail.commit cfg lib db token now form),
      ∃ n, a.normalized = some n ∧ n ≠ normalizeEmail lib a.email := by
  cases form with
  | register username email => exact hstale.elim
  | edit loaded username form =>
      obtain ⟨hsame, hloaded, stored, hstored, hmoved, hfree⟩ := hstale
      obtain ⟨hname, hemail, -, hnull⟩ := hvalid
      obtain ⟨hmem, hid⟩ := Db.user?_mem hstored
      have hmem' : address stored ∈ addresses db := List.mem_map_of_mem hmem
      have hrow := address_flush cfg lib username hemail loaded stored token now
      have huser := username_flush cfg lib hname form loaded stored token now
      rw [NormalizedEmail.commit_edit hstored]
      generalize flush loaded (simple cfg lib username form token now loaded) stored = row
        at hrow huser ⊢
      rw [if_neg hsame, ← hloaded, written, if_pos rfl] at hrow
      have hrowid : row.id = loaded.id := (congrArg Address.id hrow).trans hid
      have hrowemail : row.email = form.email := congrArg Address.email hrow
      have hrownorm : row.normalizedEmail = stored.normalizedEmail :=
        congrArg Address.normalized hrow
      have hindexed : indexed cfg db row = false := by
        rw [indexed_eq_false]
        intro u hu hne
        rw [hrowid] at hne
        rw [huser, hrowemail, hrownorm]
        refine ⟨(hfree u hu hne).1, (hfree u hu hne).2, ?_⟩
        exact h.index _ (List.mem_map_of_mem hu) _ hmem' (by rw [← hid] at hne; exact hne)
      rw [if_neg (by simp [hindexed])]
      refine ⟨address row, ?_, ?_⟩
      · rw [addresses_updateUser, Table.mem_update]
        exact ⟨address stored, hmem', by rw [if_pos (by simpa [address] using hid)]⟩
      · cases hnorm : stored.normalizedEmail with
        | none =>
            rw [hnull _ hmem' hid hnorm] at hloaded
            cases hloaded
        | some n =>
            refine ⟨n, hrownorm.trans hnorm, fun hn => hmoved ?_⟩
            rw [hnorm, hloaded, hn, show (address row).email = row.email from rfl, hrowemail]

/-! ### Runs -/

/-- A stale object is committed. -/
def Overwrites (cfg : Config) (lib : Library) (s : Desk) : Event → Prop
  | .commit i _ _ => ∃ form ∈ s.inFlight[i]?, Stale cfg lib s.db form
  | _ => False

instance Overwrites.decidable (s : Desk) : ∀ e : Event, Decidable (Overwrites cfg lib s e)
  | .commit i _ _ => inferInstanceAs (Decidable (∃ form ∈ s.inFlight[i]?, _))
  | .register .. | .edit .. | .abandon _ => inferInstanceAs (Decidable False)

/-- What the accounts are promised, `m` being the database right after the migration. -/
structure Sound (cfg : Config) (lib : Library) (m : Db) (s : Desk) : Prop where
  canonical : ∀ u ∈ s.db.users, ∀ n, u.normalizedEmail = some n → n = normalizeEmail lib u.email
  exempt : ∀ e, ∀ u ∈ (step cfg lib s e).db.users, u.normalizedEmail = none →
    ∃ v ∈ s.db.users, v.id = u.id ∧ v.normalizedEmail = none
  clash : ∀ u ∈ s.db.users, ∀ v ∈ s.db.users, u.id ≠ v.id →
    normalizeEmail lib u.email = normalizeEmail lib v.email →
    Original m (address u) ∧ Original m (address v)

/-- The invariant of a run. -/
structure Desk.Kept (cfg : Config) (lib : Library) (m : Db) (s : Desk) : Prop where
  db : NormalizedEmail.Kept cfg lib m s.db
  valid : ∀ form ∈ s.inFlight, Valid lib s.db form

theorem noneExempted_step {m : Db} {s : Desk} (h : s.Kept cfg lib m) (e : Event) :
    NoneExempted s.db (step cfg lib s e).db := by
  cases e with
  | commit i token now =>
      simp only [step]
      split
      · exact fun a ha _ => ha
      · rename_i form hform
        exact noneExempted_commit (h.valid form (List.mem_of_getElem? hform)) token now
  | register | edit | abandon => exact fun a ha _ => ha

theorem Desk.Kept.sound {m : Db} {s : Desk} (h : s.Kept cfg lib m) : Sound cfg lib m s := by
  refine ⟨?_, ?_, ?_⟩
  · intro u hu n hn
    exact h.db.canonical _ (List.mem_map_of_mem hu) n hn
  · intro e u hu hnone
    have hmem := noneExempted_step h e _ (List.mem_map_of_mem hu) hnone
    obtain ⟨v, hv, heq⟩ := List.mem_map.mp hmem
    exact ⟨v, hv, congrArg Address.id heq, (congrArg Address.normalized heq).trans hnone⟩
  · intro u hu v hv hid hsame
    have hu' : address u ∈ addresses s.db := List.mem_map_of_mem hu
    have hv' : address v ∈ addresses s.db := List.mem_map_of_mem hv
    exact ⟨h.db.original hu' hv' hid hsame, h.db.original hv' hu' hid.symm hsame.symm⟩

theorem Desk.Kept.submit {m : Db} {s : Desk} (h : s.Kept cfg lib m) {form : Option Submission}
    (hvalid : ∀ f, form = some f → Valid lib s.db f) : (s.submit form).Kept cfg lib m := by
  refine ⟨h.db, ?_⟩
  intro f hf
  rcases List.mem_append.mp hf with hold | hnew
  · exact h.valid f hold
  · exact hvalid f (by simpa using hnew)

theorem Desk.Kept.step {m : Db} {s : Desk} (h : s.Kept cfg lib m)
    (hanonymous : lib.validateEmail "N/A" = none) {e : Event} (hfresh : ¬Overwrites cfg lib s e) :
    (step cfg lib s e).Kept cfg lib m := by
  cases e with
  | register username email =>
      exact h.submit fun _ hform => valid_of_checkRegister hanonymous hform
  | edit editorID uid username form now =>
      exact h.submit fun _ hform => valid_of_checkEdit h.db.keyed hform
  | abandon i => exact ⟨h.db, fun f hf => h.valid f (List.mem_of_mem_eraseIdx hf)⟩
  | commit i token now =>
      simp only [NormalizedEmail.step]
      split
      · exact h
      · rename_i form hform
        have hvalid := h.valid form (List.mem_of_getElem? hform)
        refine ⟨h.db.commit hvalid (fun hstale => hfresh ⟨form, hform, hstale⟩) token now, ?_⟩
        intro f hf
        exact (h.valid f (List.mem_of_mem_eraseIdx hf)).later (noneExempted_commit hvalid token now)

theorem Desk.Kept.start (hkeyed : Keyed db) :
    (Desk.start cfg lib db).Kept cfg lib (upgrade cfg lib db) :=
  ⟨.start hkeyed, by simp [Desk.start]⟩

/--
**One account for one mailbox.**  From the migration on, through any interleaving of
registrations and edits, every canonical form is that of its address, no account becomes exempt
and two accounts that share a canonical address have done so since the migration — exactly
until a stale object is committed.
-/
theorem sound_iff_upToDate (hanonymous : lib.validateEmail "N/A" = none) (hkeyed : Keyed db)
    (es : List Event) :
    Run.Along (step cfg lib) (Sound cfg lib (upgrade cfg lib db)) (Desk.start cfg lib db) es ↔
      Run.Guarded (step cfg lib) (fun s e => ¬Overwrites cfg lib s e) (Desk.start cfg lib db)
        es := by
  refine Run.along_iff_guarded_of_inv (I := Desk.Kept cfg lib (upgrade cfg lib db))
    (H := fun _ _ => True) (fun s h => h.sound) ?_ ?_ (Desk.Kept.start hkeyed) ?_
  · intro s e h _ hfresh
    exact h.step hanonymous hfresh
  · intro s e h _ hsound hover
    cases e with
    | commit i token now =>
        obtain ⟨form, hform, hstale⟩ := hover
        obtain ⟨a, ha, n, hn, hne⟩ :=
          h.db.not_canonical (h.valid form (List.mem_of_getElem? hform)) hstale token now
        obtain ⟨u, hu, rfl⟩ := List.mem_map.mp ha
        refine hne (hsound.canonical u ?_ n hn)
        rw [Option.mem_def] at hform
        simp only [step, hform]
        exact hu
    | register | edit | abandon => exact hover
  · exact Run.guarded_of_forall fun _ _ => trivial

/-- Takes an address apart at its `@`. -/
def Library.plain : Library where
  validateEmail email :=
    match email.toList.span (· != '@') with
    | (_, []) => none
    | (localPart, _ :: domain) => some (String.ofList localPart, String.ofList domain)
  lower s := String.ofList (s.toList.map Char.toLower)

/-- Dave at Gmail, before the migration. -/
def daveAtGmail : Db :=
  { users := [{
      id := 1, username := "dave", email := "abc@gmail.com", accountType := .user
      suspended := false, emailVerified := true, emailVerificationToken := none
      emailVerificationExpiry := none, lastLogin := 0, lastSSHLogin := 0
      lastSSHLoginIPAddress := none, inactivityTS := 0, registrationTS := 0 }]
    nextID := 2 }

/-- Dave's form, with this address. -/
def davesEdit (email : String) : Event :=
  .edit 1 1 "dave" { email, suspended := false, accountType := none, newPassword := false } 1000000

/-- Dave moves out, and two others are after the address he leaves. -/
theorem sound_iff_upToDate_moveOut :
    Run.Along (step AccountMaint.shortConfig .plain)
      (Sound AccountMaint.shortConfig .plain
        (upgrade AccountMaint.shortConfig .plain daveAtGmail))
      (Desk.start AccountMaint.shortConfig .plain daveAtGmail)
      [davesEdit "dave@example.org", .commit 0 "t1" 1000000, .register "eve" "abc@gmail.com",
        .register "mallory" "a.bc+x@gmail.com", .commit 1 "t2" 2000000, .commit 0 "t3" 2000000] :=
  (sound_iff_upToDate (by decide +kernel) ⟨⟨by decide, by decide⟩, by decide, by decide⟩ _).mpr
    (by decide +kernel)

/-- Dave respells his address in one window and moves out in another; Eve takes the address the
first has left him with. -/
def twoWindows : List Event :=
  [davesEdit "a.b.c@gmail.com", davesEdit "dave@example.org", .commit 1 "t1" 1000000,
    .commit 0 "t2" 1000000, .register "eve" "abc@gmail.com", .commit 0 "t3" 2000000]

theorem not_sound_twoWindows :
    ¬Run.Along (step AccountMaint.shortConfig .plain)
      (Sound AccountMaint.shortConfig .plain
        (upgrade AccountMaint.shortConfig .plain daveAtGmail))
      (Desk.start AccountMaint.shortConfig .plain daveAtGmail) twoWindows := by
  intro h
  have hclash : ∃ u ∈ (Run.exec (step AccountMaint.shortConfig .plain)
      (Desk.start AccountMaint.shortConfig .plain daveAtGmail) twoWindows).db.users,
      ∃ v ∈ (Run.exec (step AccountMaint.shortConfig .plain)
        (Desk.start AccountMaint.shortConfig .plain daveAtGmail) twoWindows).db.users,
      u.id ≠ v.id ∧ normalizeEmail .plain u.email = normalizeEmail .plain v.email ∧
        ∀ w ∈ (upgrade AccountMaint.shortConfig .plain daveAtGmail).users, w.id ≠ v.id := by
    decide +kernel
  obtain ⟨u, hu, v, hv, hid, hsame, hnew⟩ := hclash
  obtain ⟨w, hw, hwid, -⟩ := (h.last.clash u hu v hv hid hsame).2
  exact hnew w hw hwid

end Aurweb.NormalizedEmail
