/-
What the migration that introduced `NormalizedEmail` leaves behind.

The accounts it deletes are referred to from nowhere else, so the tables they could have had
content in stay as they are, and with them what anybody owns.  That is why a second run deletes
nobody, and as it computes all of the values anew, it ends where the first has ended.

A group comes out of the query once, with a number of its own, and with all of its rows; whether
a row is among the demoted is therefore told by its group alone (`mem_demoted`).
-/
import Aurweb.EmailMigration
import Aurweb.Proofs.AccountDeletion
import Aurweb.Proofs.NormalizedEmail

namespace Aurweb.EmailMigration

open AccountDeletion (Database)
open NormalizedEmail (Library normalizeEmail collide members hasClaim keeperKey keeperID)

variable {cfg : Config} {lib : Library} {db : Db} {d : Database}

/-! ### The accounts that go -/

/-- The condition of `_delete_spam_accounts`. -/
def isSpam (db : Db) (u : User) : Bool := u.suspended && !ownsContent db u.id

def spamIDs (db : Db) : List Nat := (db.users.filter (isSpam db)).map (·.id)

theorem deleteSpamAccounts_eq (d : Database) :
    deleteSpamAccounts d = d.without (spamIDs d.db) := by
  apply AccountDeletion.deleteUsers_of_unmentioned
  intro uid huid
  obtain ⟨u, hu, rfl⟩ := List.mem_map.mp huid
  have hspam := (List.mem_filter.mp hu).2
  rw [Bool.and_eq_true, Bool.not_eq_true'] at hspam
  exact AccountDeletion.unmentioned_of_not_ownsContent hspam.2

theorem db_deleteUsers (batch : List Nat) (d : Database) :
    (d.deleteUsers batch).db = AccountMaint.deleteUsers d.db batch := by
  induction batch generalizing d with
  | nil => rfl
  | cons uid batch ih => exact ih (d.deleteUser uid)

/-- An account has one row, so the rows that go are those that meet the condition. -/
theorem mem_deleteSpamAccounts (hids : (d.db.users.map (·.id)).Nodup) {u : User} :
    u ∈ (deleteSpamAccounts d).db.users ↔ u ∈ d.db.users ∧ isSpam d.db u = false := by
  rw [deleteSpamAccounts_eq]
  show u ∈ Table.delete _ d.db.users ↔ _
  rw [Table.mem_delete]
  refine and_congr_right fun hu => ?_
  rw [List.contains_eq_mem, decide_eq_false_iff_not, ← Bool.not_eq_true, not_iff_not]
  constructor
  · intro hmem
    obtain ⟨v, hv, hid⟩ := List.mem_map.mp hmem
    obtain ⟨hv, hspam⟩ := List.mem_filter.mp hv
    rwa [List.inj_on_of_nodup_map hids hv hu hid] at hspam
  · intro hspam
    exact List.mem_map_of_mem (List.mem_filter.mpr ⟨hu, hspam⟩)

theorem nodup_deleteSpamAccounts (hids : (d.db.users.map (·.id)).Nodup) :
    ((deleteSpamAccounts d).db.users.map (·.id)).Nodup := by
  rw [deleteSpamAccounts_eq]
  exact hids.sublist ((Table.delete_sublist _ _).map _)

/-! ### Writing rows by their ids -/

def setColumn (u : User) (normalized : Option String) : User :=
  { u with normalizedEmail := normalized }

theorem writes_setColumn {values : List (Nat × Option String)} {u : User} {n : Option String}
    (hsame : ∀ value ∈ values, value.1 = u.id → value.2 = n) (h : u.id ∈ values.map (·.1)) :
    Table.writes User.id setColumn values u = { u with normalizedEmail := n } := by
  have hkey : ∀ u n, User.id (setColumn u n) = User.id u := fun _ _ => rfl
  have hput : ∀ u, setColumn (setColumn u n) n = setColumn u n := fun _ => rfl
  exact Table.writes_of_same hkey hput hsame h

theorem setNormalizedEmail_eq (values : List (Nat × Option String)) (db : Db) :
    setNormalizedEmail db values =
      { db with users := db.users.map (Table.writes User.id setColumn values) } := by
  have hfold : setNormalizedEmail db values = { db with
      users := values.foldl
        (fun t value => Table.update (User.id · == value.1) (setColumn · value.2) t) db.users } := by
    induction values generalizing db with
    | nil => rfl
    | cons value values ih => exact ih (updateUser db value.1 fun u => setColumn u value.2)
  rw [hfold, Table.foldl_update]

theorem backfill_db (hids : (d.db.users.map (·.id)).Nodup) :
    (backfill lib d).db = NormalizedEmail.backfill lib d.db := by
  show setNormalizedEmail d.db _ = _
  rw [setNormalizedEmail_eq]
  simp only [NormalizedEmail.backfill]
  congr 1
  refine List.map_congr_left fun u hu => ?_
  apply writes_setColumn
  · intro value hvalue hid
    rw [List.map_map] at hvalue
    obtain ⟨v, hv, rfl⟩ := List.mem_map.mp hvalue
    rw [← List.inj_on_of_nodup_map hids hv hu hid]
    rfl
  · rw [List.map_map, List.map_map]
    exact List.mem_map_of_mem (f := User.id) hu

/-! ### Groups -/

theorem collide_iff_groupKey {u w : User} : collide cfg u.normalizedEmail w.normalizedEmail = true ↔
    u.normalizedEmail.isSome ∧ groupKey cfg u = groupKey cfg w := by
  unfold groupKey
  cases u.normalizedEmail <;> cases w.normalizedEmail <;>
    simp [collide, Config.sameName]

/-- A group that has an address is what is found for the address. -/
theorem groupOf_eq {u : User} (h : u.normalizedEmail.isSome) :
    groupOf cfg db u = members cfg db u := by
  refine List.filter_congr fun m _ => ?_
  rw [Bool.eq_iff_iff, beq_iff_eq, collide_iff_groupKey]
  refine ⟨fun hkey => ⟨?_, hkey⟩, And.right⟩
  have hsome : (groupKey cfg m).isSome = true := by
    rw [hkey, groupKey, Option.isSome_map]
    exact h
  rwa [groupKey, Option.isSome_map] at hsome

theorem groupOf_congr {u w : User} (h : groupKey cfg u = groupKey cfg w) :
    groupOf cfg db u = groupOf cfg db w := by
  unfold groupOf
  rw [h]

/-- The number of a group is the id of one of its rows. -/
theorem exists_groupID (cfg : Config) {r : User} (hr : r ∈ db.users) :
    ∃ m ∈ groupOf cfg db r, m.id = groupID cfg db r := by
  have hself : r ∈ groupOf cfg db r := List.mem_filter.mpr ⟨hr, beq_self_eq_true _⟩
  have hmin : groupID cfg db r ∈ r.id :: (groupOf cfg db r).map (·.id) :=
    List.min?_mem List.min?_cons'
  rcases List.mem_cons.mp hmin with h | h
  · exact ⟨r, hself, h.symm⟩
  · obtain ⟨m, hm, hid⟩ := List.mem_map.mp h
    exact ⟨m, hm, hid⟩

/-- Groups with one number are one group. -/
theorem groupKey_of_groupID (hids : (db.users.map (·.id)).Nodup) {r r' : User}
    (hr : r ∈ db.users) (hr' : r' ∈ db.users) (h : groupID cfg db r = groupID cfg db r') :
    groupKey cfg r = groupKey cfg r' := by
  obtain ⟨m, hm, hid⟩ := exists_groupID cfg hr
  obtain ⟨m', hm', hid'⟩ := exists_groupID cfg hr'
  obtain ⟨hm, hkey⟩ := List.mem_filter.mp hm
  obtain ⟨hm', hkey'⟩ := List.mem_filter.mp hm'
  have hsame : m = m' := List.inj_on_of_nodup_map hids hm hm' (hid.trans (h.trans hid'.symm))
  rw [← eq_of_beq hkey, ← eq_of_beq hkey', hsame]

theorem mem_rows {g : Nat} {m : User} :
    (g, m) ∈ rows cfg db ↔ ∃ r ∈ Query.groupBy (groupKey cfg) db.users,
      1 < (groupOf cfg db r).length ∧ groupID cfg db r = g ∧ m ∈ members cfg db r := by
  unfold rows
  rw [List.mem_insertionSort, List.mem_flatMap]
  constructor
  · rintro ⟨dupe, hdupe, hm⟩
    obtain ⟨r, hr, rfl⟩ := List.mem_map.mp hdupe
    obtain ⟨hr, hlong⟩ := List.mem_filter.mp hr
    obtain ⟨u, hu, heq⟩ := List.mem_map.mp hm
    obtain ⟨rfl, rfl⟩ := Prod.mk.inj heq
    exact ⟨r, hr, of_decide_eq_true hlong, rfl, hu⟩
  · rintro ⟨r, hr, hlong, rfl, hm⟩
    refine ⟨(r.normalizedEmail, groupID cfg db r), ?_, List.mem_map_of_mem hm⟩
    exact List.mem_map.mpr ⟨r, List.mem_filter.mpr ⟨hr, decide_eq_true hlong⟩, rfl⟩

/-- The rows of a number are those of its group. -/
theorem mem_valuesAt_rows (hids : (db.users.map (·.id)).Nodup) {r : User}
    (hr : r ∈ Query.groupBy (groupKey cfg) db.users) (hlong : 1 < (groupOf cfg db r).length)
    {m : User} :
    m ∈ Dict.valuesAt (rows cfg db) (groupID cfg db r) ↔ m ∈ members cfg db r := by
  have hmem : ∀ r ∈ Query.groupBy (groupKey cfg) db.users, r ∈ db.users :=
    fun r hr => (Query.groupBy_sublist _ _).mem hr
  rw [Dict.mem_valuesAt, mem_rows]
  constructor
  · rintro ⟨r', hr', -, hnumber, hm⟩
    have hkey := groupKey_of_groupID hids (hmem r' hr') (hmem r hr) hnumber
    have hsame : r' = r := List.inj_on_of_nodup_map
      (Query.nodup_map_groupBy (groupKey cfg) db.users) hr' hr hkey
    rwa [← hsame]
  · intro hm
    exact ⟨r, hr, hlong, rfl, hm⟩

/-! ### The holder of a group -/

/-- The least of a list is the least of another with the same members. -/
theorem argmin_congr {α β : Type} [LinearOrder β] {f : α → β} {l l' : List α}
    (hmem : ∀ a, a ∈ l ↔ a ∈ l') (hinj : ∀ a ∈ l, ∀ b ∈ l, f a = f b → a = b) :
    l.argmin f = l'.argmin f := by
  cases hl : l.argmin f with
  | none =>
      have hnil : l' = [] := by
        rw [List.eq_nil_iff_forall_not_mem]
        intro a ha
        have hin := (hmem a).mpr ha
        rw [List.argmin_eq_none.mp hl] at hin
        cases hin
      rw [hnil, List.argmin_nil]
  | some a =>
      have ha := List.argmin_mem (Option.mem_def.mpr hl)
      cases hl' : l'.argmin f with
      | none =>
          have hin := (hmem a).mp ha
          rw [List.argmin_eq_none.mp hl'] at hin
          cases hin
      | some b =>
          have hb := (hmem b).mpr (List.argmin_mem (Option.mem_def.mpr hl'))
          have hle : f a ≤ f b := List.le_of_mem_argmin hb (Option.mem_def.mpr hl)
          have hge : f b ≤ f a :=
            List.le_of_mem_argmin ((hmem a).mp ha) (Option.mem_def.mpr hl')
          rw [hinj a ha b hb (le_antisymm hle hge)]

theorem keeperKey_id {m m' : User} (h : keeperKey lib db m = keeperKey lib db m') :
    m.id = m'.id := by
  have hlex := congrArg ofLex h
  simp only [keeperKey, ofLex_toLex, Prod.mk.injEq, EmbeddingLike.apply_eq_iff_eq] at hlex
  exact hlex.2.2.2

theorem keeperID_congr (hids : (db.users.map (·.id)).Nodup) {l l' : List User}
    (hsub : ∀ m ∈ l, m ∈ db.users) (hmem : ∀ m, m ∈ l ↔ m ∈ l') :
    keeperID lib db l = keeperID lib db l' := by
  have hany : l.any (hasClaim db) = l'.any (hasClaim db) := by
    rw [Bool.eq_iff_iff, List.any_eq_true, List.any_eq_true]
    exact exists_congr fun m => and_congr_left fun _ => hmem m
  unfold keeperID
  rw [hany, argmin_congr (f := keeperKey lib db) hmem]
  intro m hm m' hm' hkey
  exact List.inj_on_of_nodup_map hids (hsub m hm) (hsub m' hm') (keeperKey_id hkey)

/-- The demoted are told by their groups. -/
theorem mem_demoted (hids : (db.users.map (·.id)).Nodup) {u : User} (hu : u ∈ db.users) :
    u.id ∈ demoted cfg lib db ↔
      1 < (members cfg db u).length ∧ keeperID lib db (members cfg db u) ≠ some u.id := by
  have hmembers : ∀ r m, m ∈ members cfg db r → m ∈ db.users :=
    fun r m hm => (List.mem_filter.mp hm).1
  unfold demoted
  rw [List.mem_flatMap]
  constructor
  · rintro ⟨⟨g, ms⟩, hgroup, hdemoted⟩
    obtain ⟨hvalues, -⟩ := Dict.mem_items.mp hgroup
    obtain ⟨m, hm, hid⟩ := List.mem_map.mp hdemoted
    obtain ⟨hm, hkeeper⟩ := List.mem_filter.mp hm
    have hrow : (g, m) ∈ rows cfg db := by
      rw [← Dict.mem_valuesAt, hvalues]
      exact hm
    obtain ⟨r, hr, hlong, rfl, hcollide⟩ := mem_rows.mp hrow
    have hmu : m = u := List.inj_on_of_nodup_map hids (hmembers r m hcollide) hu hid
    rw [hmu] at hcollide hkeeper
    have hhit := (List.mem_filter.mp hcollide).2
    have hgroups : members cfg db u = members cfg db r := NormalizedEmail.members_eq db hhit
    have hkey := (collide_iff_groupKey.mp hhit)
    have hsame : keeperID lib db (members cfg db u) = keeperID lib db ms := by
      apply keeperID_congr hids (hmembers u)
      intro m
      rw [← hvalues, mem_valuesAt_rows hids hr hlong, hgroups]
    rw [hsame, ← groupOf_eq hkey.1, groupOf_congr hkey.2]
    exact ⟨hlong, fun h => by simp [h] at hkeeper⟩
  · rintro ⟨hlong, hkeeper⟩
    have hsome : u.normalizedEmail.isSome = true := by
      obtain ⟨m, hm⟩ := List.exists_mem_of_length_pos (Nat.lt_of_succ_lt hlong)
      have hhit := (List.mem_filter.mp hm).2
      rw [NormalizedEmail.collide_comm] at hhit
      exact (collide_iff_groupKey.mp hhit).1
    obtain ⟨r, hr, hkey⟩ := Query.exists_mem_groupBy (groupKey cfg) hu
    have hgroups : members cfg db u = members cfg db r :=
      NormalizedEmail.members_eq db (collide_iff_groupKey.mpr ⟨hsome, hkey.symm⟩)
    have hself : u ∈ members cfg db u :=
      List.mem_filter.mpr ⟨hu, collide_iff_groupKey.mpr ⟨hsome, rfl⟩⟩
    rw [← groupOf_eq hsome, ← groupOf_congr hkey] at hlong
    have hvalues : ∀ m, m ∈ members cfg db u ↔
        m ∈ Dict.valuesAt (rows cfg db) (groupID cfg db r) := by
      intro m
      rw [mem_valuesAt_rows hids hr hlong, hgroups]
    have hmem := (hvalues u).mp hself
    refine ⟨(groupID cfg db r, Dict.valuesAt (rows cfg db) (groupID cfg db r)),
      Dict.mem_items.mpr ⟨rfl, List.ne_nil_of_mem hmem⟩, ?_⟩
    refine List.mem_map.mpr ⟨u, List.mem_filter.mpr ⟨hmem, ?_⟩, rfl⟩
    rw [← keeperID_congr hids (hmembers u) hvalues, bne_iff_ne]
    exact Ne.symm hkeeper

theorem nullDuplicates_db (cfg : Config) (hids : (d.db.users.map (·.id)).Nodup) :
    (nullDuplicates cfg lib d).db = NormalizedEmail.nullDuplicates cfg lib d.db := by
  show setNormalizedEmail d.db _ = _
  rw [setNormalizedEmail_eq]
  simp only [NormalizedEmail.nullDuplicates]
  congr 1
  refine List.map_congr_left fun u hu => ?_
  have hkeys : ∀ l : List Nat, (l.map fun uid => (uid, (none : Option String))).map (·.1) = l := by
    intro l
    rw [List.map_map]
    exact List.map_id l
  by_cases hdemoted : u.id ∈ demoted cfg lib d.db
  · obtain ⟨hlong, hkeeper⟩ := (mem_demoted hids hu).mp hdemoted
    rw [if_pos (by simp [hlong, hkeeper])]
    apply writes_setColumn
    · intro value hvalue _
      obtain ⟨uid, -, rfl⟩ := List.mem_map.mp hvalue
      rfl
    · rw [hkeys]
      exact hdemoted
  · rw [Table.writes_of_notMem (by rwa [hkeys]), if_neg]
    intro h
    rw [Bool.and_eq_true, decide_eq_true_eq, bne_iff_ne] at h
    exact hdemoted ((mem_demoted hids hu).mpr h)

/-! ### All of the data steps -/

theorem nodup_backfill (hids : (d.db.users.map (·.id)).Nodup) :
    ((backfill lib d).db.users.map (·.id)).Nodup := by
  rw [backfill_db hids]
  simp only [NormalizedEmail.backfill, List.map_map]
  exact hids

theorem nodup_upgrade (hids : (d.db.users.map (·.id)).Nodup) :
    ((upgrade cfg lib d).db.users.map (·.id)).Nodup := by
  unfold upgrade
  rw [nullDuplicates_db cfg (nodup_backfill (nodup_deleteSpamAccounts hids))]
  rw [show ((NormalizedEmail.nullDuplicates cfg lib _).users.map (·.id)) =
    (backfill lib (deleteSpamAccounts d)).db.users.map (·.id) from ?_]
  · exact nodup_backfill (nodup_deleteSpamAccounts hids)
  · simp only [NormalizedEmail.nullDuplicates, List.map_map]
    refine List.map_congr_left fun u _ => ?_
    rw [Function.comp_apply]
    split <;> rfl

theorem backfill_eq (lib : Library) (d : Database) :
    backfill lib d = { d with db := (backfill lib d).db } := rfl

theorem nullDuplicates_eq (cfg : Config) (lib : Library) (d : Database) :
    nullDuplicates cfg lib d = { d with db := (nullDuplicates cfg lib d).db } := rfl

/-- The two passes after the deletion, on the tables that are left. -/
theorem upgrade_eq (hids : (d.db.users.map (·.id)).Nodup) :
    upgrade cfg lib d = { deleteSpamAccounts d with
      db := NormalizedEmail.nullDuplicates cfg lib
        (NormalizedEmail.backfill lib (deleteSpamAccounts d).db) } := by
  have hdeleted := nodup_deleteSpamAccounts hids
  unfold upgrade
  rw [nullDuplicates_eq, nullDuplicates_db cfg (nodup_backfill hdeleted), backfill_db hdeleted,
    backfill_eq]

/-- The statements add up to what the requests since rely on. -/
theorem upgrade_db (hids : (d.db.users.map (·.id)).Nodup) :
    (upgrade cfg lib d).db = NormalizedEmail.upgrade cfg lib d.db := by
  have hdelete : (deleteSpamAccounts d).db = NormalizedEmail.deleteSpamAccounts d.db :=
    db_deleteUsers _ d
  rw [upgrade_eq hids, hdelete]
  rfl

/-- The value a row comes out with. -/
def final (cfg : Config) (lib : Library) (db : Db) (u : User) : User :=
  if 1 < (members cfg db u).length && keeperID lib db (members cfg db u) != some u.id then
    { u with normalizedEmail := none }
  else u

theorem final_email (db : Db) (u : User) : (final cfg lib db u).email = u.email := by
  unfold final
  split <;> rfl

theorem final_id (db : Db) (u : User) : (final cfg lib db u).id = u.id := by
  unfold final
  split <;> rfl

/-! ### What is promised -/

/-- Two accounts whose addresses come to one value of the index. -/
def sameMailbox (cfg : Config) (lib : Library) (u v : User) : Bool :=
  cfg.sameName (normalizeEmail lib u.email) (normalizeEmail lib v.email)

/-- The accounts behind the mailbox of an account. -/
def mailbox (cfg : Config) (lib : Library) (db : Db) (u : User) : List User :=
  db.users.filter (sameMailbox cfg lib · u)

/-- What is promised of the data steps from `d` to `d'`. -/
structure Migrated (cfg : Config) (lib : Library) (d d' : Database) : Prop where
  /-- The unique index can be created. -/
  unique : ∀ u ∈ d'.db.users, ∀ v ∈ d'.db.users,
    collide cfg u.normalizedEmail v.normalizedEmail = true → u = v
  canonical : ∀ u ∈ d'.db.users, ∀ n, u.normalizedEmail = some n →
    n = normalizeEmail lib u.email
  /-- No other column of an account changes. -/
  rows : ∀ u' ∈ d'.db.users, ∃ u ∈ d.db.users, u' = { u with normalizedEmail := u'.normalizedEmail }
  deleted : ∀ u ∈ d.db.users, (∀ u' ∈ d'.db.users, u'.id ≠ u.id) ↔
    u.suspended = true ∧ ownsContent d.db u.id = false
  holder : ∀ u ∈ d'.db.users, 1 < (mailbox cfg lib d'.db u).length →
    ((mailbox cfg lib d'.db u).filter (·.normalizedEmail.isSome)).length =
      if (mailbox cfg lib d'.db u).any (hasClaim d.db) then 1 else 0
  alone : ∀ u ∈ d'.db.users, mailbox cfg lib d'.db u = [u] →
    u.normalizedEmail = some (normalizeEmail lib u.email)
  again : upgrade cfg lib d' = d'

/-! ### That it is kept -/

/-- A row with its canonical address. -/
def filled (lib : Library) (u : User) : User :=
  { u with normalizedEmail := some (normalizeEmail lib u.email) }

theorem users_upgrade (hids : (d.db.users.map (·.id)).Nodup) :
    (upgrade cfg lib d).db.users =
      ((deleteSpamAccounts d).db.users.map (filled lib)).map
        (final cfg lib (NormalizedEmail.backfill lib (deleteSpamAccounts d).db)) := by
  rw [upgrade_eq hids]
  rfl

/-- A row that is left comes from one that was filled. -/
theorem mem_upgrade (hids : (d.db.users.map (·.id)).Nodup) {u' : User} :
    u' ∈ (upgrade cfg lib d).db.users ↔ ∃ u ∈ d.db.users, isSpam d.db u = false ∧
      final cfg lib (NormalizedEmail.backfill lib (deleteSpamAccounts d).db) (filled lib u) =
        u' := by
  rw [users_upgrade hids, List.map_map, List.mem_map]
  refine exists_congr fun u => ?_
  rw [mem_deleteSpamAccounts hids, and_assoc]
  rfl

theorem sameMailbox_eq_collide (u w : User) :
    sameMailbox cfg lib u w =
      collide cfg (filled lib u).normalizedEmail (filled lib w).normalizedEmail := rfl

/-- The mailbox of a row is its group, with the values that come out. -/
theorem mailbox_upgrade (hids : (d.db.users.map (·.id)).Nodup) {u : User}
    {db₁ : Db} (hdb₁ : db₁ = NormalizedEmail.backfill lib (deleteSpamAccounts d).db) :
    mailbox cfg lib (upgrade cfg lib d).db (final cfg lib db₁ (filled lib u)) =
      (members cfg db₁ (filled lib u)).map (final cfg lib db₁) := by
  unfold mailbox members
  rw [users_upgrade hids, ← hdb₁, List.filter_map]
  subst hdb₁
  congr 1
  refine List.filter_congr fun w hw => ?_
  obtain ⟨w, -, rfl⟩ := List.mem_map.mp hw
  rw [Function.comp_apply, ← sameMailbox_eq_collide, sameMailbox, sameMailbox, final_email,
    final_email]
  rfl

/-- One of a group keeps its value, if it has a holder. -/
theorem length_holders {db : Db} (hids : (db.users.map (·.id)).Nodup) {w : User}
    (hlong : 1 < (members cfg db w).length) :
    (((members cfg db w).map (final cfg lib db)).filter (·.normalizedEmail.isSome)).length =
      if (members cfg db w).any (hasClaim db) then 1 else 0 := by
  have hmem : ∀ m ∈ members cfg db w, members cfg db m = members cfg db w := fun m hm =>
    NormalizedEmail.members_eq db (List.mem_filter.mp hm).2
  have hholds : ∀ m ∈ members cfg db w, ((final cfg lib db m).normalizedEmail.isSome) =
      (keeperID lib db (members cfg db w) == some m.id) := by
    intro m hm
    have hsome := (collide_iff_groupKey.mp (List.mem_filter.mp hm).2).1
    unfold final
    rw [hmem m hm, decide_eq_true hlong, Bool.true_and]
    by_cases hkeeper : keeperID lib db (members cfg db w) = some m.id
    · rw [if_neg (by simp [hkeeper]), hsome]
      exact (beq_iff_eq.mpr hkeeper).symm
    · rw [if_pos (by simpa using hkeeper)]
      exact (beq_false_of_ne hkeeper).symm
  rw [List.filter_map, List.length_map]
  rw [show (members cfg db w).filter ((·.normalizedEmail.isSome) ∘ final cfg lib db) =
    (members cfg db w).filter fun m => keeperID lib db (members cfg db w) == some m.id from
    List.filter_congr hholds]
  by_cases hclaim : (members cfg db w).any (hasClaim db) = true
  · rw [if_pos hclaim]
    cases hleast : (members cfg db w).argmin (keeperKey lib db) with
    | none =>
        rw [List.argmin_eq_none.mp hleast] at hlong
        cases hlong
    | some k =>
        have hk := List.argmin_mem (Option.mem_def.mpr hleast)
        have hkeeper : keeperID lib db (members cfg db w) = some k.id := by
          unfold keeperID
          rw [if_pos hclaim, hleast]
          rfl
        have hone : (members cfg db w).filter (User.id · == User.id k) = [k] :=
          Query.filter_key_eq_singleton (hids.sublist ((List.filter_sublist ..).map _)) hk
        rw [hkeeper, ← List.length_singleton (a := k), ← hone]
        congr 1
        refine List.filter_congr fun m _ => ?_
        rw [Bool.eq_iff_iff, beq_iff_eq, beq_iff_eq, Option.some.injEq, eq_comm]
  · have hnone : keeperID lib db (members cfg db w) = none := by
      unfold keeperID
      rw [if_neg hclaim]
    rw [if_neg hclaim, hnone, List.length_eq_zero_iff, List.filter_eq_nil_iff]
    intro m _ h
    cases h

/-- Nobody is left for a second run to delete. -/
theorem deleteSpamAccounts_upgrade (hids : (d.db.users.map (·.id)).Nodup) :
    deleteSpamAccounts (upgrade cfg lib d) = upgrade cfg lib d := by
  rw [deleteSpamAccounts_eq]
  rw [show spamIDs (upgrade cfg lib d).db = [] from ?_]
  · exact AccountDeletion.Database.without_nil _
  · unfold spamIDs
    rw [List.map_eq_nil_iff, List.filter_eq_nil_iff]
    intro u' hu'
    obtain ⟨u, -, hspam, rfl⟩ := (mem_upgrade hids).mp hu'
    rw [Bool.not_eq_true, ← hspam]
    have hcontent : ∀ uid, ownsContent (upgrade cfg lib d).db uid = ownsContent d.db uid := by
      intro uid
      rw [upgrade_eq hids, deleteSpamAccounts_eq]
      rfl
    unfold isSpam
    rw [hcontent, final_id]
    unfold final
    split <;> rfl

/-- The values of all rows are written anew. -/
theorem backfill_nullDuplicates (db : Db) :
    NormalizedEmail.backfill lib (NormalizedEmail.nullDuplicates cfg lib db) =
      NormalizedEmail.backfill lib db := by
  show { db with users := (db.users.map (final cfg lib db)).map (filled lib) } =
    { db with users := db.users.map (filled lib) }
  rw [List.map_map]
  congr 1
  refine List.map_congr_left fun u _ => ?_
  rw [Function.comp_apply]
  unfold final
  split <;> rfl

theorem backfill_backfill (db : Db) :
    NormalizedEmail.backfill lib (NormalizedEmail.backfill lib db) =
      NormalizedEmail.backfill lib db := by
  show { db with users := (db.users.map (filled lib)).map (filled lib) } =
    { db with users := db.users.map (filled lib) }
  rw [List.map_map]
  rfl

theorem upgrade_upgrade (hids : (d.db.users.map (·.id)).Nodup) :
    upgrade cfg lib (upgrade cfg lib d) = upgrade cfg lib d := by
  rw [upgrade_eq (nodup_upgrade hids), deleteSpamAccounts_upgrade hids]
  rw [upgrade_eq hids]
  dsimp only
  rw [backfill_nullDuplicates, backfill_backfill]

/--
**The migration keeps its word**: whatever is in `Users` and in the tables that refer to it, the
data steps leave values the unique index accepts, each of them the canonical address of its row;
they delete the suspended accounts without content and nobody else; a mailbox with several accounts
is left with one holder just if one of them is verified or owns content, and one with a single
account with its value; and a second run changes nothing.
-/
theorem upgrade_migrated (cfg : Config) (lib : Library) (d : Database)
    (hids : (d.db.users.map (·.id)).Nodup) : Migrated cfg lib d (upgrade cfg lib d) where
  unique := by
    intro u hu v hv hcollide
    by_contra hne
    have hid : u.id ≠ v.id := fun h =>
      hne (List.inj_on_of_nodup_map (nodup_upgrade hids) hu hv h)
    rw [upgrade_eq hids] at hu hv
    rw [NormalizedEmail.nullDuplicates_index hu hv hid] at hcollide
    cases hcollide
  canonical := by
    intro u' hu' n hn
    obtain ⟨u, -, -, rfl⟩ := (mem_upgrade hids).mp hu'
    rw [final_email]
    unfold final at hn
    split at hn
    · cases hn
    · exact (Option.some.inj hn).symm
  rows := by
    intro u' hu'
    obtain ⟨u, hu, -, rfl⟩ := (mem_upgrade hids).mp hu'
    refine ⟨u, hu, ?_⟩
    unfold final
    split <;> rfl
  deleted := by
    intro u hu
    have hspam : isSpam d.db u = true ↔ u.suspended = true ∧ ownsContent d.db u.id = false := by
      rw [isSpam, Bool.and_eq_true, Bool.not_eq_true']
    rw [← hspam]
    constructor
    · intro hgone
      by_contra hkept
      exact hgone _ ((mem_upgrade hids).mpr ⟨u, hu, Bool.not_eq_true _ ▸ hkept, rfl⟩)
        (final_id _ _)
    · intro hspam u' hu' hid
      obtain ⟨w, hw, hkept, rfl⟩ := (mem_upgrade hids).mp hu'
      rw [final_id] at hid
      rw [← List.inj_on_of_nodup_map hids hw hu hid, hkept] at hspam
      cases hspam
  holder := by
    intro u' hu' hlong
    obtain ⟨u, -, -, rfl⟩ := (mem_upgrade hids).mp hu'
    rw [mailbox_upgrade hids rfl] at hlong ⊢
    rw [List.length_map] at hlong
    rw [length_holders ?_ hlong, List.any_map]
    · have hclaim : hasClaim d.db ∘ final cfg lib
            (NormalizedEmail.backfill lib (deleteSpamAccounts d).db) =
          hasClaim (NormalizedEmail.backfill lib (deleteSpamAccounts d).db) := by
        rw [deleteSpamAccounts_eq]
        funext m
        rw [Function.comp_apply]
        unfold final
        split <;> rfl
      rw [hclaim]
    · have hdeleted := nodup_deleteSpamAccounts hids
      rw [← backfill_db hdeleted]
      exact nodup_backfill hdeleted
  alone := by
    intro u' hu' halone
    obtain ⟨u, -, -, rfl⟩ := (mem_upgrade hids).mp hu'
    rw [mailbox_upgrade hids rfl] at halone
    have hlength := congrArg List.length halone
    rw [List.length_map, List.length_singleton] at hlength
    rw [final_email]
    unfold final
    rw [hlength]
    rfl
  again := upgrade_upgrade hids

def registeredAt (id : Nat) (email : String) (suspended emailVerified : Bool) : User :=
  { account id .user email with email, suspended, emailVerified }

/-- A spammer who is on two others' address, two who never confirmed theirs, and one alone. -/
def mailboxes : Database where
  db := {
    users := [registeredAt 1 "dave@gmail.com" true true, registeredAt 2 "d.ave@gmail.com" false false,
      registeredAt 3 "dave+aur@gmail.com" false true, registeredAt 4 "eve@pm.me" false false,
      registeredAt 5 "eve@proton.me" false false, registeredAt 6 "Carol@example.org" false false]
    nextID := 7 }
  sessions := []
  sshPubKeys := []

theorem upgrade_migrated_mailboxes :
    Migrated AccountMaint.shortConfig .plain mailboxes
        (upgrade AccountMaint.shortConfig .plain mailboxes) ∧
      (upgrade AccountMaint.shortConfig .plain mailboxes).db.users.map
          (fun u => (u.id, u.normalizedEmail)) =
        [(2, none), (3, some "dave@gmail.com"), (4, none), (5, none),
          (6, some "carol@example.org")] :=
  ⟨upgrade_migrated _ _ _ (by decide), by decide +kernel⟩

end Aurweb.EmailMigration
