/-
Cutting a query into pages.

Each page is a query of its own, and a database may return the rows that compare equal in
another order for each of them.  So the pages fit together when it does not matter where an
equal row stands: `pages_perm_iff` says that this is when the rows equal to one another are all
on one page.  How many rows are before a row and how many are not after it is all that is
needed of a sorted list (`Arranges.bounds`, `Arranges.eq_of_bounds`).
-/
import Mathlib.Data.List.Nodup
import Mathlib.Data.List.Perm.Basic
import Mathlib.Data.Nat.Basic

namespace Paging

variable {α : Type*} (cmp : α → α → Ordering)

/-- An order of the rows that `ORDER BY` allows. -/
structure Arranges (rows l : List α) : Prop where
  perm : l.Perm rows
  sorted : l.Pairwise fun a b => (cmp a b).isLE = true

/-- `LIMIT limit OFFSET offset`. -/
def cut (offset limit : Nat) (l : List α) : List α := (l.drop offset).take limit

/-- How many rows are before a row. -/
def before (rows : List α) (r : α) : Nat := rows.countP fun x => cmp x r == .lt

/-- How many are not after it. -/
def upTo (rows : List α) (r : α) : Nat := rows.countP fun x => (cmp x r).isLE

/-- The rows that are equal to one another are on one page. -/
def OnOnePage (size : Nat) (rows : List α) : Prop :=
  ∀ r ∈ rows, before cmp rows r / size = (upTo cmp rows r - 1) / size

variable {cmp} {rows l s t : List α} {x y r : α} {k size : Nat}

theorem mem_cut_iff {offset limit : Nat} : x ∈ cut offset limit l ↔
    ∃ s t, l = s ++ x :: t ∧ offset ≤ s.length ∧ s.length < offset + limit := by
  unfold cut
  constructor
  · intro hx
    obtain ⟨i, hi, hget⟩ := List.mem_take_iff_getElem.mp hx
    rw [List.getElem_drop] at hget
    rw [List.length_drop] at hi
    have hlt : offset + i < l.length := by omega
    refine ⟨l.take (offset + i), l.drop (offset + i + 1), ?_, ?_, ?_⟩
    · rw [← hget, List.getElem_cons_drop, List.take_append_drop]
    · rw [List.length_take]
      omega
    · rw [List.length_take]
      omega
  · intro ⟨s, t, hl, hle, hlt⟩
    subst hl
    rw [List.mem_take_iff_getElem]
    refine ⟨s.length - offset, ?_, ?_⟩
    · rw [List.length_drop, List.length_append, List.length_cons]
      omega
    · rw [List.getElem_drop]
      have hindex : offset + (s.length - offset) = s.length := by omega
      simp [hindex]

section

variable [Std.TransCmp cmp]

/-! ### Where a row stands -/

namespace Arranges

/-- A row stands among those that are equal to it. -/
theorem bounds (h : Arranges cmp rows (s ++ x :: t)) :
    before cmp rows x ≤ s.length ∧ s.length < upTo cmp rows x := by
  obtain ⟨-, htail, hhead⟩ := List.pairwise_append.mp h.sorted
  have hrefl : cmp x x = .eq := Std.ReflCmp.compare_self
  constructor
  · have hnone : (x :: t).countP (fun y => cmp y x == .lt) = 0 := by
      rw [List.countP_eq_zero]
      intro y hy hlt
      rcases List.mem_cons.mp hy with rfl | hy
      · simp [hrefl] at hlt
      · have hle := List.rel_of_pairwise_cons htail hy
        exact Std.OrientedCmp.not_lt_of_isLE hle (eq_of_beq hlt)
    rw [before, ← h.perm.countP_eq, List.countP_append, hnone]
    exact List.countP_le_length
  · have hall : s.countP (fun y => (cmp y x).isLE) = s.length := by
      rw [List.countP_eq_length]
      intro y hy
      exact hhead y hy x (List.mem_cons_self ..)
    have hself : (cmp x x).isLE = true := by rw [hrefl]; rfl
    rw [upTo, ← h.perm.countP_eq, List.countP_append, hall,
      List.countP_cons_of_pos (p := fun y => (cmp y x).isLE) hself]
    omega

/-- What stands where the rows equal to `r` stand is one of them. -/
theorem eq_of_bounds (h : Arranges cmp rows (s ++ x :: t)) (hbefore : before cmp rows r ≤ s.length)
    (hupTo : s.length < upTo cmp rows r) : cmp x r = .eq := by
  obtain ⟨-, htail, hhead⟩ := List.pairwise_append.mp h.sorted
  rw [before, ← h.perm.countP_eq, List.countP_append] at hbefore
  rw [upTo, ← h.perm.countP_eq, List.countP_append] at hupTo
  cases hx : cmp x r with
  | eq => rfl
  | lt =>
      have hall : s.countP (fun y => cmp y r == .lt) = s.length := by
        rw [List.countP_eq_length]
        intro y hy
        have hle := hhead y hy x (List.mem_cons_self ..)
        exact beq_iff_eq.mpr (Std.TransCmp.lt_of_isLE_of_lt hle hx)
      rw [hall, List.countP_cons_of_pos (p := fun y => cmp y r == .lt) (beq_iff_eq.mpr hx)]
        at hbefore
      omega
  | gt =>
      have hnone : (x :: t).countP (fun y => (cmp y r).isLE) = 0 := by
        rw [List.countP_eq_zero]
        intro y hy hle
        have hxy : (cmp x y).isLE = true := by
          rcases List.mem_cons.mp hy with rfl | hy
          · rw [show cmp y y = .eq from Std.ReflCmp.compare_self]
            rfl
          · exact List.rel_of_pairwise_cons htail hy
        have hxr := Std.TransCmp.isLE_trans hxy hle
        rw [hx] at hxr
        exact absurd hxr (by decide)
      rw [hnone] at hupTo
      have hle : s.countP (fun y => (cmp y r).isLE) ≤ s.length := List.countP_le_length
      omega

/-- Two neighbours that are equal may change places. -/
theorem swap (h : Arranges cmp rows (s ++ x :: y :: t)) (heq : cmp x y = .eq) :
    Arranges cmp rows (s ++ y :: x :: t) := by
  refine ⟨((List.Perm.swap x y t).append_left s).trans h.perm, ?_⟩
  obtain ⟨hs, htail, hhead⟩ := List.pairwise_append.mp h.sorted
  obtain ⟨hx, hrest⟩ := List.pairwise_cons.mp htail
  obtain ⟨hy, ht⟩ := List.pairwise_cons.mp hrest
  refine List.pairwise_append.mpr ⟨hs, ?_, ?_⟩
  · refine List.pairwise_cons.mpr ⟨?_, List.pairwise_cons.mpr ⟨?_, ht⟩⟩
    · intro z hz
      rcases List.mem_cons.mp hz with rfl | hz
      · rw [Std.OrientedCmp.eq_symm heq]
        rfl
      · exact hy z hz
    · intro z hz
      exact hx z (List.mem_cons_of_mem _ hz)
  · intro a ha z hz
    exact hhead a ha z ((List.Perm.swap x y t).mem_iff.mp hz)

end Arranges

theorem exists_arranges (cmp : α → α → Ordering) [Std.TransCmp cmp] (rows : List α) :
    ∃ l, Arranges cmp rows l := by
  refine ⟨rows.mergeSort fun a b => (cmp a b).isLE, List.mergeSort_perm .., ?_⟩
  apply List.pairwise_mergeSort
  · intro a b c
    exact Std.TransCmp.isLE_trans
  · intro a b
    cases hab : cmp a b with
    | gt => simp [Std.OrientedCmp.lt_of_gt hab]
    | lt => rfl
    | eq => rfl

/-! ### Pages that fit together -/

/-- Whatever the order, a row is on the page of its equals. -/
theorem mem_page_iff (hsize : 0 < size) (hone : OnOnePage cmp size rows) (h : Arranges cmp rows l) :
    x ∈ cut (k * size) size l ↔ x ∈ rows ∧ k = before cmp rows x / size := by
  rw [mem_cut_iff]
  constructor
  · intro ⟨s, t, hl, hle, hlt⟩
    subst hl
    have hx : x ∈ rows := h.perm.mem_iff.mp (by simp)
    obtain ⟨hbefore, hupTo⟩ := h.bounds
    have hpage : s.length / size = k := by
      apply Nat.div_eq_of_lt_le hle
      rw [Nat.succ_mul]
      exact hlt
    have hlow : before cmp rows x / size ≤ k := by
      rw [← hpage]
      exact Nat.div_le_div_right hbefore
    have hhigh : k ≤ (upTo cmp rows x - 1) / size := by
      rw [← hpage]
      exact Nat.div_le_div_right (by omega)
    have hsame := hone x hx
    exact ⟨hx, by omega⟩
  · intro ⟨hx, hk⟩
    obtain ⟨s, t, rfl⟩ := List.append_of_mem (h.perm.mem_iff.mpr hx)
    obtain ⟨hbefore, hupTo⟩ := h.bounds
    have hlow : k ≤ s.length / size := by
      rw [hk]
      exact Nat.div_le_div_right hbefore
    have hhigh : s.length / size ≤ k := by
      rw [hk, hone x hx]
      exact Nat.div_le_div_right (by omega)
    have hpage : s.length / size = k := le_antisymm hhigh hlow
    refine ⟨s, t, rfl, ?_, ?_⟩
    · rw [← hpage]
      exact Nat.div_mul_le_self ..
    · rw [← hpage]
      exact Nat.lt_div_mul_add hsize

theorem before_lt_length (hx : x ∈ rows) : before cmp rows x < rows.length := by
  unfold before
  apply lt_of_le_of_ne List.countP_le_length
  rw [Ne, List.countP_eq_length]
  intro hall
  have hself := hall x hx
  rw [show cmp x x = .eq from Std.ReflCmp.compare_self] at hself
  exact absurd hself (by decide)

theorem perm_of_onOnePage (hnodup : rows.Nodup) (hone : OnOnePage cmp size rows)
    {arr : Nat → List α} (harr : ∀ k, Arranges cmp rows (arr k)) {n : Nat}
    (hn : rows.length ≤ n * size) :
    ((List.range n).flatMap fun k => cut (k * size) size (arr k)).Perm rows := by
  rcases Nat.eq_zero_or_pos size with rfl | hsize
  · have hnil : rows = [] := List.eq_nil_of_length_eq_zero (by omega)
    subst hnil
    simp [cut]
  have honce : ((List.range n).flatMap fun k => cut (k * size) size (arr k)).Nodup := by
    rw [List.nodup_flatMap]
    constructor
    · intro k _
      have hk : (arr k).Nodup := (harr k).perm.nodup_iff.mpr hnodup
      exact hk.sublist ((List.take_sublist ..).trans (List.drop_sublist ..))
    · refine List.nodup_range.imp ?_
      intro i j hne x hi hj
      obtain ⟨-, hi⟩ := (mem_page_iff hsize hone (harr i)).mp hi
      obtain ⟨-, hj⟩ := (mem_page_iff hsize hone (harr j)).mp hj
      exact hne (hi.trans hj.symm)
  rw [List.perm_ext_iff_of_nodup honce hnodup]
  intro x
  simp only [List.mem_flatMap, List.mem_range, mem_page_iff hsize hone (harr _)]
  constructor
  · intro ⟨k, _, hx, _⟩
    exact hx
  · intro hx
    have hlt : before cmp rows x < rows.length := before_lt_length hx
    exact ⟨before cmp rows x / size, Nat.div_lt_of_lt_mul (by rw [Nat.mul_comm]; omega), hx, rfl⟩

/-! ### Pages that do not -/

/-- Two neighbours on different pages that are equal. -/
theorem exists_boundary (hr : r ∈ rows)
    (hne : before cmp rows r / size ≠ (upTo cmp rows r - 1) / size) :
    ∃ k s x y t, Arranges cmp rows (s ++ x :: y :: t) ∧ cmp x y = .eq ∧
      s.length + 1 = (k + 1) * size := by
  obtain ⟨l, hl⟩ := exists_arranges cmp rows
  obtain ⟨s₀, t₀, rfl⟩ := List.append_of_mem (hl.perm.mem_iff.mpr hr)
  obtain ⟨hbefore, hupTo⟩ := hl.bounds
  have hupTo_le : upTo cmp rows r ≤ rows.length := List.countP_le_length
  have hlength := hl.perm.length_eq
  -- The first row of the last page that the equals of `r` reach is not the first of them.
  have hlt : before cmp rows r / size < (upTo cmp rows r - 1) / size :=
    lt_of_le_of_ne (Nat.div_le_div_right (by omega)) hne
  have hsize : 0 < size := by
    apply Nat.pos_of_ne_zero
    rintro rfl
    simp at hlt
  obtain ⟨k, hk⟩ := Nat.exists_eq_succ_of_ne_zero (Nat.ne_of_gt (Nat.zero_lt_of_lt hlt))
  rw [hk] at hlt
  have hlow : before cmp rows r < (k + 1) * size := (Nat.div_lt_iff_lt_mul hsize).mp hlt
  have hhigh : (k + 1) * size ≤ upTo cmp rows r - 1 := by
    rw [← Nat.succ_eq_add_one, ← hk]
    exact Nat.div_mul_le_self ..
  generalize s₀ ++ r :: t₀ = l at hl hlength
  generalize hc : (k + 1) * size = c at hlow hhigh
  have hx : c - 1 < l.length := by omega
  have hy : c - 1 + 1 < l.length := by omega
  have hsplit : l = l.take (c - 1) ++ l[c - 1] :: l[c - 1 + 1] :: l.drop (c - 1 + 1 + 1) := by
    rw [List.getElem_cons_drop, List.getElem_cons_drop, List.take_append_drop]
  have hlen : (l.take (c - 1)).length = c - 1 := by
    rw [List.length_take]
    omega
  have hfirst : cmp l[c - 1] r = .eq := by
    refine Arranges.eq_of_bounds (hsplit ▸ hl) ?_ ?_ <;> rw [hlen] <;> omega
  have hsecond : cmp l[c - 1 + 1] r = .eq := by
    have hl' : Arranges cmp rows
        ((l.take (c - 1) ++ [l[c - 1]]) ++ l[c - 1 + 1] :: l.drop (c - 1 + 1 + 1)) := by
      rw [List.append_assoc]
      exact hsplit ▸ hl
    refine hl'.eq_of_bounds ?_ ?_ <;> rw [List.length_append, hlen, List.length_singleton] <;> omega
  refine ⟨k, _, _, _, _, hsplit ▸ hl, ?_, ?_⟩
  · exact Std.TransCmp.eq_trans hfirst (Std.OrientedCmp.eq_symm hsecond)
  · rw [hlen, hc]
    omega

/-- However the equal rows are ordered for each page, the pages give each row once. -/
theorem pages_perm_iff (cmp : α → α → Ordering) [Std.TransCmp cmp] (hnodup : rows.Nodup)
    (size : Nat) :
    (∀ arr : Nat → List α, (∀ k, Arranges cmp rows (arr k)) → ∀ n, rows.length ≤ n * size →
      ((List.range n).flatMap fun k => cut (k * size) size (arr k)).Perm rows) ↔
    OnOnePage cmp size rows := by
  constructor
  · intro hperm r hr
    by_contra hne
    obtain ⟨k, s, x, y, t, harr, heq, hc⟩ := exists_boundary hr hne
    -- The pages before and after the boundary are asked for in two orders.
    let arr : Nat → List α := fun j => if j = k + 1 then s ++ y :: x :: t else s ++ x :: y :: t
    have hall : ∀ j, Arranges cmp rows (arr j) := by
      intro j
      by_cases hj : j = k + 1
      · simp only [arr, if_pos hj]
        exact harr.swap heq
      · simp only [arr, if_neg hj]
        exact harr
    have hsize : 0 < size := by
      apply Nat.pos_of_ne_zero
      rintro rfl
      omega
    have hn : rows.length ≤ (rows.length + (k + 2)) * size :=
      le_trans (Nat.le_add_right ..) (Nat.le_mul_of_pos_right _ hsize)
    have honce := (hperm arr hall _ hn).nodup_iff.mpr hnodup
    obtain ⟨-, hapart⟩ := List.nodup_flatMap.mp honce
    have hdisjoint : (cut (k * size) size (arr k)).Disjoint
        (cut ((k + 1) * size) size (arr (k + 1))) := by
      have hnext := List.pairwise_iff_getElem.mp hapart k (k + 1)
        (by rw [List.length_range]; omega) (by rw [List.length_range]; omega) (Nat.lt_succ_self k)
      rwa [List.getElem_range, List.getElem_range] at hnext
    have hbefore : x ∈ cut (k * size) size (arr k) := by
      rw [mem_cut_iff]
      rw [Nat.succ_mul] at hc
      refine ⟨s, y :: t, ?_, by omega, by omega⟩
      simp only [arr, if_neg (show k ≠ k + 1 by omega)]
    have hafter : x ∈ cut ((k + 1) * size) size (arr (k + 1)) := by
      rw [mem_cut_iff]
      refine ⟨s ++ [y], t, ?_, ?_, ?_⟩
      · simp [arr]
      · rw [List.length_append, List.length_singleton]
        omega
      · rw [List.length_append, List.length_singleton]
        omega
    exact hdisjoint hbefore hafter
  · intro hone arr harr n hn
    exact perm_of_onOnePage hnodup hone harr hn

/-- No two rows that are equal: every page size will do. -/
theorem onOnePage_of_injOn (hnodup : rows.Nodup)
    (hinj : ∀ x ∈ rows, ∀ y ∈ rows, cmp x y = .eq → x = y) (size : Nat) :
    OnOnePage cmp size rows := by
  intro r hr
  by_contra hne
  obtain ⟨k, s, x, y, t, harr, heq, -⟩ := exists_boundary hr hne
  have hx : x ∈ rows := harr.perm.mem_iff.mp (by simp)
  have hy : y ∈ rows := harr.perm.mem_iff.mp (by simp)
  have hsame := hinj x hx y hy heq
  subst hsame
  have honce := harr.perm.nodup_iff.mpr hnodup
  simp [List.nodup_append] at honce

end

end Paging
