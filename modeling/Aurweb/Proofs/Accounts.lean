/-
What the account requests do to a row of `Users`, and what deleting an account does to
everybody else's content.
-/
import Aurweb.Accounts

namespace Aurweb

/-! ### Rows of `Users` -/

@[simp] theorem issue_id (cfg : Config) (token : String) (now : Nat) (u : User) :
    (u.issue cfg token now).id = u.id := rfl

@[simp] theorem edited_id (cfg : Config) (form : AccountForm) (token : String) (now : Nat)
    (u : User) : (u.edited cfg form token now).id = u.id := by
  unfold User.edited
  split <;> rfl

theorem mem_updateUser {db : Db} {uid : Nat} {f : User → User} {u' : User} :
    u' ∈ (updateUser db uid f).users ↔
      ∃ u ∈ db.users, (if u.id = uid then f u else u) = u' := by
  simp [updateUser, Table.mem_update]

/-- An account is one row, so looking it up by id finds it. -/
theorem user?_eq_some {db : Db} (h : (db.users.map (·.id)).Nodup) {u : User} {uid : Nat} :
    db.user? uid = some u ↔ u ∈ db.users ∧ u.id = uid := by
  constructor
  · exact Db.user?_mem
  · rintro ⟨hmem, rfl⟩
    exact Table.find?_key h hmem

/-! ### Content -/

private theorem mem_of_nulled {ρ : Type} {f : ρ → Option Nat} (uid : Nat) {i : Nat} {t t' : List ρ}
    (hsub : ∀ r ∈ t', ∃ r₀ ∈ t, f r = Db.setNull uid (f r₀)) (h : some i ∈ t'.map f) :
    some i ∈ t.map f := by
  obtain ⟨r, hr, hval⟩ := List.mem_map.mp h
  obtain ⟨r₀, hr₀, heq⟩ := hsub r hr
  refine List.mem_map.mpr ⟨r₀, hr₀, ?_⟩
  rw [hval, Db.setNull] at heq
  split at heq
  · simp at heq
  · exact heq.symm

private theorem mem_of_deleted {ρ : Type} {f : ρ → Option Nat} {p : ρ → Bool} {i : Nat}
    {t : List ρ} (h : some i ∈ (Table.delete p t).map f) : some i ∈ t.map f :=
  ((Table.delete_sublist p t).map f).subset h

/-- Deleting an account gives nobody content. -/
theorem ownsContent_deleteUser {db : Db} {uid i : Nat}
    (h : ownsContent (db.deleteUser uid) i = true) : ownsContent db i = true := by
  have hcolumn : ∀ column ∈ contentColumns,
      some i ∈ column (db.deleteUser uid) → some i ∈ column db := by
    have hcomment : ∀ r ∈ (db.deleteUser uid).packageComments, ∃ r₀ ∈ db.packageComments,
        r = { r₀ with
          usersID := Db.setNull uid r₀.usersID
          editedUsersID := Db.setNull uid r₀.editedUsersID } := by
      intro r hr
      obtain ⟨r₀, hr₀, rfl⟩ := List.mem_map.mp hr
      exact ⟨r₀, (Table.mem_delete.mp hr₀).1, rfl⟩
    have hbase : ∀ r ∈ (db.deleteUser uid).packageBases, ∃ r₀ ∈ db.packageBases,
        r.maintainerUID = Db.setNull uid r₀.maintainerUID ∧
        r.submitterUID = Db.setNull uid r₀.submitterUID ∧
        r.packagerUID = Db.setNull uid r₀.packagerUID ∧
        r.flaggerUID = Db.setNull uid r₀.flaggerUID := by
      intro r hr
      obtain ⟨r₀, hr₀, rfl⟩ := List.mem_map.mp hr
      exact ⟨r₀, hr₀, rfl, rfl, rfl, rfl⟩
    have hrequest : ∀ r ∈ (db.deleteUser uid).packageRequests, ∃ r₀ ∈ db.packageRequests,
        r.usersID = Db.setNull uid r₀.usersID ∧ r.closedUID = Db.setNull uid r₀.closedUID := by
      intro r hr
      obtain ⟨r₀, hr₀, rfl⟩ := List.mem_map.mp hr
      exact ⟨r₀, hr₀, rfl, rfl⟩
    simp only [contentColumns, List.forall_mem_cons, List.not_mem_nil, false_implies,
      implies_true, and_true]
    refine ⟨mem_of_nulled uid fun r hr => ?_, mem_of_nulled uid fun r hr => ?_, fun hr => ?_,
      mem_of_nulled uid fun r hr => ?_, mem_of_nulled uid fun r hr => ?_,
      mem_of_nulled uid fun r hr => ?_, mem_of_nulled uid fun r hr => ?_,
      mem_of_deleted, mem_of_deleted, mem_of_nulled uid fun r hr => ?_,
      mem_of_nulled uid fun r hr => ?_, mem_of_deleted, mem_of_deleted, mem_of_deleted⟩
    · obtain ⟨r₀, hr₀, rfl⟩ := hcomment r hr
      exact ⟨r₀, hr₀, rfl⟩
    · obtain ⟨r₀, hr₀, rfl⟩ := hcomment r hr
      exact ⟨r₀, hr₀, rfl⟩
    · obtain ⟨r, hr, hval⟩ := List.mem_map.mp hr
      obtain ⟨r₀, hr₀, rfl⟩ := hcomment r hr
      exact List.mem_map.mpr ⟨r₀, hr₀, hval⟩
    · exact (hbase r hr).imp fun r₀ h => ⟨h.1, h.2.1⟩
    · exact (hbase r hr).imp fun r₀ h => ⟨h.1, h.2.2.1⟩
    · exact (hbase r hr).imp fun r₀ h => ⟨h.1, h.2.2.2.1⟩
    · exact (hbase r hr).imp fun r₀ h => ⟨h.1, h.2.2.2.2⟩
    · exact (hrequest r hr).imp fun r₀ h => ⟨h.1, h.2.1⟩
    · exact (hrequest r hr).imp fun r₀ h => ⟨h.1, h.2.2⟩
  obtain ⟨column, hmem, hval⟩ := List.any_eq_true.mp h
  refine List.any_eq_true.mpr ⟨column, hmem, ?_⟩
  simpa using hcolumn column hmem (by simpa using hval)

end Aurweb
