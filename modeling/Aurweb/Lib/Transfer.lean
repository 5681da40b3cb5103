/-
Rows that move from one group to another.

A row is a member's, in a group, and a member has at most one row in each.  A transfer takes
the rows of a group to another, leaves out those of members that have a row there already,
and drops what is left behind.  The members of the other group are then the members of
either, and each of them still has one row.
-/
import Mathlib.Data.Finset.Card
import Aurweb.Lib.Table

namespace Transfer

variable {ρ κ β : Type*}

/-- No member has two rows in one group. -/
def Unique (user : ρ → κ) (base : ρ → β) (rows : List ρ) : Prop :=
  (rows.map fun r => (user r, base r)).Nodup

theorem Unique.eq {user : ρ → κ} {base : ρ → β} {rows : List ρ} (h : Unique user base rows)
    {r r' : ρ} (hr : r ∈ rows) (hr' : r' ∈ rows) (huser : user r = user r')
    (hbase : base r = base r') : r = r' :=
  List.inj_on_of_nodup_map h hr hr' (Prod.ext huser hbase)

variable [DecidableEq κ] [DecidableEq β]

/-- The members with a row in the group. -/
def members (user : ρ → κ) (base : ρ → β) (rows : List ρ) (b : β) : Finset κ :=
  ((rows.filter (base · == b)).map user).toFinset

/-- The rows of `p` are moved to `t`, but for those of members `t` has. -/
def moved (user : ρ → κ) (base : ρ → β) (move : ρ → ρ) (p t : β) (rows : List ρ) : List ρ :=
  Table.update (fun r => base r == p && !rows.any fun r' => base r' == t && user r' == user r)
    move rows

/-- What is not moved is gone. -/
def transfer (user : ρ → κ) (base : ρ → β) (move : ρ → ρ) (p t : β) (rows : List ρ) : List ρ :=
  Table.delete (base · == p) (moved user base move p t rows)

variable {user : ρ → κ} {base : ρ → β} {move : ρ → ρ} {p t b : β} {rows : List ρ}

theorem mem_members {u : κ} : u ∈ members user base rows b ↔ ∃ r ∈ rows, base r = b ∧ user r = u := by
  simp [members, and_assoc]

theorem any_iff {u : κ} :
    (rows.any fun r => base r == b && user r == u) = true ↔ u ∈ members user base rows b := by
  simp [mem_members]

/-! ### Unique rows -/

theorem Unique.countP_row (h : Unique user base rows) (b : β) (u : κ) :
    rows.countP (fun r => base r == b && user r == u) =
      if u ∈ members user base rows b then 1 else 0 := by
  have hcount : rows.countP (fun r => base r == b && user r == u) =
      (rows.map fun r => (user r, base r)).count (u, b) := by
    rw [List.count, List.countP_map]
    refine List.countP_congr fun r _ => ?_
    simp [and_comm]
  have hmem : (u, b) ∈ (rows.map fun r => (user r, base r)) ↔ u ∈ members user base rows b := by
    simp [mem_members, and_comm]
  rw [hcount, List.Nodup.count h]
  simp only [hmem]

/-- The rows of a group are as many as its members. -/
theorem Unique.countP_base (h : Unique user base rows) (b : β) :
    rows.countP (base · == b) = (members user base rows b).card := by
  have hnodup : ((rows.filter (base · == b)).map user).Nodup := by
    refine List.Nodup.map_on ?_ ((List.Nodup.of_map _ h).filter _)
    intro r hr r' hr' heq
    obtain ⟨hr, hb⟩ := List.mem_filter.mp hr
    obtain ⟨hr', hb'⟩ := List.mem_filter.mp hr'
    exact h.eq hr hr' heq ((beq_iff_eq.mp hb).trans (beq_iff_eq.mp hb').symm)
  rw [members, List.toFinset_card_of_nodup hnodup, List.length_map, List.countP_eq_length_filter]

/-! ### A transfer -/

theorem moves_iff {r : ρ} :
    (base r == p && !rows.any fun r' => base r' == t && user r' == user r) = true ↔
      base r = p ∧ user r ∉ members user base rows t := by
  rw [Bool.and_eq_true, beq_iff_eq, Bool.not_eq_true', ← Bool.not_eq_true, any_iff]

section

variable (hbase : ∀ r, base (move r) = t)

include hbase

/-- A row moves only to where its member has none, so no two become one. -/
theorem Unique.moved (huser : ∀ r, user (move r) = user r) (h : Unique user base rows) :
    Unique user base (moved user base move p t rows) := by
  unfold Unique Transfer.moved Table.update
  rw [List.map_map]
  refine List.Nodup.map_on ?_ (List.Nodup.of_map _ h)
  intro r hr r' hr' heq
  simp only [Function.comp_apply, Prod.mk.injEq] at heq
  obtain ⟨huser', hbase'⟩ := heq
  by_cases hm : (base r == p && !rows.any fun r' => base r' == t && user r' == user r) = true
  · obtain ⟨hfrom, hnew⟩ := moves_iff.mp hm
    rw [if_pos hm, huser] at huser'
    rw [if_pos hm, hbase] at hbase'
    split at huser'
    · rename_i hm'
      rw [huser] at huser'
      exact h.eq hr hr' huser' (hfrom.trans (moves_iff.mp hm').1.symm)
    · rename_i hm'
      rw [if_neg hm'] at hbase'
      exact absurd (mem_members.mpr ⟨r', hr', hbase'.symm, huser'.symm⟩) hnew
  · rw [if_neg hm] at huser' hbase'
    split at huser'
    · rename_i hm'
      rw [if_pos hm', hbase] at hbase'
      rw [huser] at huser'
      exact absurd (mem_members.mpr ⟨r, hr, hbase', huser'⟩) (moves_iff.mp hm').2
    · rename_i hm'
      rw [if_neg hm'] at hbase'
      exact h.eq hr hr' huser' hbase'

theorem Unique.transfer (huser : ∀ r, user (move r) = user r) (h : Unique user base rows) :
    Unique user base (transfer user base move p t rows) :=
  (h.moved hbase huser).sublist ((Table.delete_sublist _ _).map _)

variable (hne : p ≠ t)

include hne

/-- A row of the result was elsewhere all along, or has been moved. -/
theorem mem_transfer {r' : ρ} : r' ∈ transfer user base move p t rows ↔
    (r' ∈ rows ∧ base r' ≠ p) ∨
      ∃ r ∈ rows, base r = p ∧ user r ∉ members user base rows t ∧ move r = r' := by
  unfold Transfer.transfer Transfer.moved
  rw [Table.mem_delete, Table.mem_update, beq_eq_false_iff_ne]
  constructor
  · rintro ⟨⟨r, hr, rfl⟩, hkept⟩
    split at hkept
    · rename_i hmoves
      rw [if_pos hmoves]
      obtain ⟨hfrom, hnew⟩ := moves_iff.mp hmoves
      exact Or.inr ⟨r, hr, hfrom, hnew, rfl⟩
    · rename_i hstays
      rw [if_neg hstays]
      exact Or.inl ⟨hr, hkept⟩
  · rintro (⟨hr, hkept⟩ | ⟨r, hr, hfrom, hnew, rfl⟩)
    · refine ⟨⟨r', hr, if_neg fun hmoves => ?_⟩, hkept⟩
      exact hkept (moves_iff.mp hmoves).1
    · refine ⟨⟨r, hr, if_pos (moves_iff.mpr ⟨hfrom, hnew⟩)⟩, ?_⟩
      rw [hbase]
      exact hne.symm

/-- The members of both groups, and nobody else. -/
theorem members_transfer (huser : ∀ r, user (move r) = user r) :
    members user base (transfer user base move p t rows) t =
      members user base rows p ∪ members user base rows t := by
  ext u
  rw [Finset.mem_union, mem_members]
  constructor
  · rintro ⟨r', hr', hbase', rfl⟩
    rcases (mem_transfer hbase hne).mp hr' with ⟨hr, -⟩ | ⟨r, hr, hfrom, -, rfl⟩
    · exact Or.inr (mem_members.mpr ⟨r', hr, hbase', rfl⟩)
    · exact Or.inl (mem_members.mpr ⟨r, hr, hfrom, (huser r).symm⟩)
  · intro hu
    by_cases hthere : u ∈ members user base rows t
    · obtain ⟨r, hr, hb, rfl⟩ := mem_members.mp hthere
      exact ⟨r, (mem_transfer hbase hne).mpr (Or.inl ⟨hr, hb ▸ hne.symm⟩), hb, rfl⟩
    · obtain ⟨r, hr, hb, rfl⟩ := mem_members.mp (hu.resolve_right hthere)
      exact ⟨move r, (mem_transfer hbase hne).mpr (Or.inr ⟨r, hr, hb, hthere, rfl⟩), hbase r,
        huser r⟩

end

end Transfer
