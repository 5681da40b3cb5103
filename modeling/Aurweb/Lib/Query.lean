/-
`SELECT` over joined tables.

A query that starts from a table and only joins and filters has, for each row of the table, some
rows that stem from it; a join gives each of them several successors and a filter drops some.
Written as `base.flatMap f`, where `f` is what stems from a row of the table, the query is told
by how long the lists of `f` are: `perm_filter_iff` reads off it when a query gives exactly the
rows of the table that a predicate picks, each of them once.
-/
import Mathlib.Data.List.Basic
import Mathlib.Data.List.Nodup
import Mathlib.Data.List.Perm.Basic

namespace Query

variable {ρ κ β γ : Type*}

/-- `JOIN`: a row goes on with each of the rows found for it. -/
def inner (found : ρ → List β) (put : ρ → β → ρ) (rows : List ρ) : List ρ :=
  rows.flatMap fun r => (found r).map (put r)

/-- `LEFT OUTER JOIN`: a row for which nothing is found goes on with `NULL`. -/
def outer (found : ρ → List β) (put : ρ → Option β → ρ) (rows : List ρ) : List ρ :=
  rows.flatMap fun r =>
    match found r with
    | [] => [put r none]
    | b :: bs => (b :: bs).map fun b => put r (some b)

/-- `GROUP BY`: one row for each value of the columns. -/
def groupBy [DecidableEq γ] (columns : ρ → γ) : List ρ → List ρ
  | [] => []
  | r :: rows => r :: (groupBy columns rows).filter fun r' => columns r' ≠ columns r

/-- `UNION`: the rows of both, each of them once. -/
def union [DecidableEq ρ] (rows rows' : List ρ) : List ρ := groupBy id (rows ++ rows')

/-! ### The rows of a join -/

theorem mem_inner {found : ρ → List β} {put : ρ → β → ρ} {rows : List ρ} {r : ρ} :
    r ∈ inner found put rows ↔ ∃ r₀ ∈ rows, ∃ b ∈ found r₀, put r₀ b = r := by
  simp [inner]

/-! ### Joins with unique keys -/

/-- What a condition selects that no two rows meet. -/
theorem filter_eq_toList_find? {l : List β} {p : β → Bool}
    (h : l.Pairwise fun a b => ¬ (p a = true ∧ p b = true)) :
    l.filter p = (l.find? p).toList := by
  induction l with
  | nil => rfl
  | cons a l ih =>
      obtain ⟨hhead, htail⟩ := List.pairwise_cons.mp h
      by_cases ha : p a = true
      · have hnone : l.filter p = [] := by
          rw [List.filter_eq_nil_iff]
          intro b hb hpb
          exact hhead b hb ⟨ha, hpb⟩
        rw [List.filter_cons_of_pos ha, hnone, List.find?_cons_of_pos ha]
        rfl
      · rw [List.filter_cons_of_neg ha, List.find?_cons_of_neg ha, ih htail]

/-- No two rows meet a condition that fixes a unique key. -/
theorem pairwise_of_key {l : List β} {key : β → κ} (hnodup : (l.map key).Nodup) {p : β → Bool}
    (hkey : ∀ a b, p a = true → p b = true → key a = key b) :
    l.Pairwise fun a b => ¬ (p a = true ∧ p b = true) := by
  refine (List.pairwise_map.mp hnodup).imp ?_
  intro a b hne hp
  exact hne (hkey a b hp.1 hp.2)

/-- The one row that has the key of a row. -/
theorem filter_key_eq_singleton [DecidableEq κ] {l : List β} {key : β → κ}
    (hnodup : (l.map key).Nodup) {a : β} (ha : a ∈ l) : l.filter (key · == key a) = [a] := by
  have hone : l.filter (key · == key a) = (l.find? (key · == key a)).toList := by
    apply filter_eq_toList_find?
    apply pairwise_of_key hnodup
    intro b c hb hc
    exact (eq_of_beq hb).trans (eq_of_beq hc).symm
  cases hfind : l.find? (key · == key a) with
  | none => exact absurd (beq_self_eq_true _) (List.find?_eq_none.mp hfind a ha)
  | some b =>
      have hb := List.find?_some hfind
      rw [hone, hfind, List.inj_on_of_nodup_map hnodup (List.mem_of_find?_eq_some hfind) ha
        (eq_of_beq hb)]
      rfl

/-- What is found once, and is all that is found. -/
theorem eq_singleton_of_nodup {l : List β} (hnodup : l.Nodup) {a : β} (hall : ∀ b ∈ l, b = a)
    (ha : a ∈ l) : l = [a] := by
  have hreplicate := List.eq_replicate_of_mem hall
  rw [hreplicate, List.nodup_replicate] at hnodup
  have hpos := List.length_pos_of_mem ha
  rw [hreplicate, show l.length = 1 by omega]
  rfl

/-- A join with unique rows on both sides, whose columns tell which rows were joined. -/
theorem nodup_flatMap_map {α : Type*} {l : List α} {found : α → List β} {col : α → β → γ}
    (hl : l.Nodup) (hfound : ∀ a ∈ l, (found a).Nodup)
    (hcol : ∀ a ∈ l, ∀ b ∈ found a, ∀ a' ∈ l, ∀ b' ∈ found a', col a b = col a' b' →
      a = a' ∧ b = b') : (l.flatMap fun a => (found a).map (col a)).Nodup := by
  rw [List.nodup_flatMap]
  constructor
  · intro a ha
    refine List.Nodup.map_on ?_ (hfound a ha)
    intro b hb b' hb' heq
    exact (hcol a ha b hb a ha b' hb' heq).2
  · refine List.Pairwise.imp_of_mem ?_ hl
    intro a a' ha ha' hne x hx hx'
    obtain ⟨b, hb, rfl⟩ := List.mem_map.mp hx
    obtain ⟨b', hb', heq⟩ := List.mem_map.mp hx'
    exact hne (hcol a ha b hb a' ha' b' hb' heq.symm).1

/-- A join with the rows that are referred to, when its columns tell these rows apart and, of the
rows that refer to one, those that do. -/
theorem nodup_references [DecidableEq κ] {α : Type*} {l : List α} {named : List β} {ref : α → κ}
    {key : β → κ} {col : α → β → γ} (hl : l.Nodup) (hnamed : named.Nodup)
    (hcol : ∀ a, ∀ b ∈ named, ∀ a', ∀ b' ∈ named, col a b = col a' b' → b = b')
    (href : ∀ a ∈ l, ∀ b, ∀ a' ∈ l, ∀ b', ref a = ref a' → col a b = col a' b' → a = a') :
    (l.flatMap fun a => (named.filter (key · == ref a)).map (col a)).Nodup := by
  apply nodup_flatMap_map hl
  · intro a _
    exact hnamed.filter _
  · intro a ha b hb a' ha' b' hb' heq
    obtain ⟨hmem, hkey⟩ := List.mem_filter.mp hb
    obtain ⟨hmem', hkey'⟩ := List.mem_filter.mp hb'
    have hsame : b = b' := hcol a b hmem a' b' hmem' heq
    refine ⟨href a ha b a' ha' b' ?_ heq, hsame⟩
    rw [← eq_of_beq hkey, ← eq_of_beq hkey', hsame]

/-- An outer join that finds at most one row for each keeps the number of rows. -/
theorem outer_eq_map {found : ρ → List β} {one : ρ → Option β} {put : ρ → Option β → ρ}
    {rows : List ρ} (h : ∀ r ∈ rows, found r = (one r).toList) :
    outer found put rows = rows.map fun r => put r (one r) := by
  rw [outer, List.map_eq_flatMap]
  refine List.flatMap_congr fun r hr => ?_
  rw [h r hr]
  cases one r with
  | none => rfl
  | some b => rfl

/-- A condition that is the same for all rows found for a row may come before the join. -/
theorem filter_flatMap {α : Type*} {found : α → List β} {p : β → Bool} {q : α → Bool}
    (h : ∀ a, ∀ b ∈ found a, p b = q a) (l : List α) :
    (l.flatMap found).filter p = (l.filter q).flatMap found := by
  induction l with
  | nil => rfl
  | cons a l ih =>
      rw [List.flatMap_cons, List.filter_append, ih]
      by_cases ha : q a = true
      · rw [List.filter_cons_of_pos ha, List.flatMap_cons, List.filter_eq_self.mpr]
        intro b hb
        rw [h a b hb, ha]
      · have hnone : (found a).filter p = [] := by
          rw [List.filter_eq_nil_iff]
          intro b hb
          rwa [h a b hb]
        rw [List.filter_cons_of_neg ha, hnone, List.nil_append]

/-! ### Grouping -/

section

variable [DecidableEq γ]

theorem groupBy_cons (columns : ρ → γ) (r : ρ) (rows : List ρ) :
    groupBy columns (r :: rows) =
      r :: (groupBy columns rows).filter fun r' => columns r' ≠ columns r := rfl

/-- Every value of the columns keeps a row. -/
theorem exists_mem_groupBy (columns : ρ → γ) {rows : List ρ} {r : ρ} (h : r ∈ rows) :
    ∃ r' ∈ groupBy columns rows, columns r' = columns r := by
  induction rows with
  | nil => simp at h
  | cons r₀ rows ih =>
      by_cases heq : columns r = columns r₀
      · exact ⟨r₀, List.mem_cons_self .., heq.symm⟩
      have hr : r ∈ rows := by
        rcases List.mem_cons.mp h with rfl | hr
        · exact absurd rfl heq
        · exact hr
      obtain ⟨r', hr', hcol⟩ := ih hr
      refine ⟨r', List.mem_cons_of_mem _ (List.mem_filter.mpr ⟨hr', ?_⟩), hcol⟩
      rw [hcol]
      simpa using heq

theorem groupBy_sublist (columns : ρ → γ) (rows : List ρ) :
    (groupBy columns rows).Sublist rows := by
  induction rows with
  | nil => exact .slnil
  | cons r rows ih => exact ((List.filter_sublist ..).trans ih).cons_cons r

theorem nodup_map_groupBy (columns : ρ → γ) (rows : List ρ) :
    ((groupBy columns rows).map columns).Nodup := by
  induction rows with
  | nil => exact List.nodup_nil
  | cons r rows ih =>
      rw [groupBy_cons, List.map_cons, List.nodup_cons]
      constructor
      · intro hmem
        obtain ⟨r', hr', heq⟩ := List.mem_map.mp hmem
        have hne := (List.mem_filter.mp hr').2
        exact of_decide_eq_true hne heq
      · exact ih.sublist ((List.filter_sublist ..).map columns)

theorem groupBy_eq_self {columns : ρ → γ} {rows : List ρ} (h : (rows.map columns).Nodup) :
    groupBy columns rows = rows := by
  induction rows with
  | nil => rfl
  | cons r rows ih =>
      obtain ⟨hnotMem, hrest⟩ := List.nodup_cons.mp h
      rw [groupBy_cons, ih hrest, List.filter_eq_self.mpr]
      intro r' hr'
      have hne : columns r' ≠ columns r := fun heq => hnotMem (heq ▸ List.mem_map_of_mem hr')
      simpa using hne

/-- A condition on the columns may come first. -/
theorem filter_groupBy {columns : ρ → γ} {q : ρ → Bool}
    (hq : ∀ r r', columns r = columns r' → q r = q r') (rows : List ρ) :
    (groupBy columns rows).filter q = groupBy columns (rows.filter q) := by
  induction rows with
  | nil => rfl
  | cons r rows ih =>
      rw [groupBy_cons]
      by_cases hr : q r = true
      · rw [List.filter_cons_of_pos hr, List.filter_cons_of_pos hr, groupBy_cons, ← ih,
          List.filter_comm]
      · rw [List.filter_cons_of_neg hr, List.filter_cons_of_neg hr, ← ih, List.filter_filter]
        refine List.filter_congr fun r' _ => ?_
        by_cases hr' : columns r' = columns r
        · rw [hq r' r hr', eq_false_of_ne_true hr, Bool.false_and]
        · simp [hr']

/-- Only which rows have the same columns matters. -/
theorem groupBy_congr {γ' : Type*} [DecidableEq γ'] {columns : ρ → γ} {columns' : ρ → γ'}
    (h : ∀ r r', columns r = columns r' ↔ columns' r = columns' r') (rows : List ρ) :
    groupBy columns rows = groupBy columns' rows := by
  induction rows with
  | nil => rfl
  | cons r rows ih =>
      rw [groupBy_cons, groupBy_cons, ih]
      congr 1
      refine List.filter_congr fun r' _ => ?_
      simp [h r' r]

theorem groupBy_map (columns : ρ → γ) (f : β → ρ) (rows : List β) :
    groupBy columns (rows.map f) = (groupBy (columns ∘ f) rows).map f := by
  induction rows with
  | nil => rfl
  | cons r rows ih =>
      rw [List.map_cons, groupBy_cons, groupBy_cons, ih, List.map_cons, List.filter_map]
      rfl

theorem mem_map_groupBy {columns : ρ → γ} {rows : List ρ} {x : γ} :
    x ∈ (groupBy columns rows).map columns ↔ x ∈ rows.map columns := by
  constructor
  · intro hx
    exact ((groupBy_sublist columns rows).map columns).mem hx
  · intro hx
    obtain ⟨r, hr, rfl⟩ := List.mem_map.mp hx
    obtain ⟨r', hr', heq⟩ := exists_mem_groupBy columns hr
    rw [← heq]
    exact List.mem_map_of_mem hr'

theorem length_groupBy_le (columns : ρ → γ) (rows : List ρ) :
    (groupBy columns rows).length ≤ rows.length := (groupBy_sublist columns rows).length_le

theorem length_groupBy_eq_iff {columns : ρ → γ} {rows : List ρ} :
    (groupBy columns rows).length = rows.length ↔ (rows.map columns).Nodup := by
  constructor
  · intro hlength
    rw [← (groupBy_sublist columns rows).eq_of_length hlength]
    exact nodup_map_groupBy columns rows
  · intro hnodup
    have hsub : (rows.map columns).Subperm ((groupBy columns rows).map columns) :=
      List.subperm_of_subset hnodup fun x hx => mem_map_groupBy.mpr hx
    have hle := hsub.length_le
    rw [List.length_map, List.length_map] at hle
    exact Nat.le_antisymm (length_groupBy_le columns rows) hle

/-- Fewer values leave fewer rows. -/
theorem length_groupBy_le_of_subset {columns : ρ → γ} {rows rows' : List ρ}
    (h : ∀ r ∈ rows, columns r ∈ rows'.map columns) :
    (groupBy columns rows).length ≤ (groupBy columns rows').length := by
  have hsub : ((groupBy columns rows).map columns).Subperm ((groupBy columns rows').map columns) := by
    apply List.subperm_of_subset (nodup_map_groupBy columns rows)
    intro x hx
    obtain ⟨r, hr, rfl⟩ := List.mem_map.mp (mem_map_groupBy.mp hx)
    exact mem_map_groupBy.mpr (h r hr)
  have hle := hsub.length_le
  rwa [List.length_map, List.length_map] at hle

theorem length_groupBy_perm {columns : ρ → γ} {rows rows' : List ρ} (h : rows.Perm rows') :
    (groupBy columns rows).length = (groupBy columns rows').length := by
  apply Nat.le_antisymm
  · exact length_groupBy_le_of_subset fun r hr => List.mem_map_of_mem (h.mem_iff.mp hr)
  · exact length_groupBy_le_of_subset fun r hr => List.mem_map_of_mem (h.mem_iff.mpr hr)

/-- The first rows have every value just if they leave as many rows as all. -/
theorem length_groupBy_take_eq_iff {columns : ρ → γ} {rows : List ρ} {limit : Nat} :
    (groupBy columns (rows.take limit)).length = (groupBy columns rows).length ↔
      ∀ r ∈ rows.drop limit, columns r ∈ (rows.take limit).map columns := by
  have hsub : ∀ r ∈ rows.take limit, columns r ∈ rows.map columns := by
    intro r hr
    exact List.mem_map_of_mem (List.mem_of_mem_take hr)
  constructor
  · intro hlength r hr
    have hperm : ((groupBy columns (rows.take limit)).map columns).Perm
        ((groupBy columns rows).map columns) := by
      have hsubperm : ((groupBy columns (rows.take limit)).map columns).Subperm
          ((groupBy columns rows).map columns) := by
        apply List.subperm_of_subset (nodup_map_groupBy columns _)
        intro x hx
        obtain ⟨r, hr, rfl⟩ := List.mem_map.mp (mem_map_groupBy.mp hx)
        exact mem_map_groupBy.mpr (hsub r hr)
      apply hsubperm.perm_of_length_le
      apply Nat.le_of_eq
      rw [List.length_map, List.length_map, hlength]
    have hmem : columns r ∈ (groupBy columns rows).map columns :=
      mem_map_groupBy.mpr (List.mem_map_of_mem (List.mem_of_mem_drop hr))
    exact mem_map_groupBy.mp (hperm.mem_iff.mpr hmem)
  · intro hrest
    apply Nat.le_antisymm (length_groupBy_le_of_subset hsub)
    apply length_groupBy_le_of_subset
    intro r hr
    rw [← List.take_append_drop limit rows] at hr
    rcases List.mem_append.mp hr with hr | hr
    · exact List.mem_map_of_mem hr
    · exact hrest r hr

end

/-! ### Unions -/

section

variable [DecidableEq ρ]

theorem nodup_union (rows rows' : List ρ) : (union rows rows').Nodup := by
  have h := nodup_map_groupBy id (rows ++ rows')
  rwa [List.map_id] at h

theorem mem_union {rows rows' : List ρ} {r : ρ} : r ∈ union rows rows' ↔ r ∈ rows ∨ r ∈ rows' := by
  rw [← List.mem_append]
  constructor
  · intro h
    exact (groupBy_sublist id _).mem h
  · intro h
    obtain ⟨r', hr', rfl⟩ := exists_mem_groupBy id h
    exact hr'

end

/-! ### Each row once -/

section

variable [DecidableEq κ]

theorem count_flatMap_replicate {base : List κ} (hnodup : base.Nodup) (n : κ → Nat) (k : κ) :
    (base.flatMap fun k => List.replicate (n k) k).count k = if k ∈ base then n k else 0 := by
  induction base with
  | nil => rfl
  | cons a base ih =>
      obtain ⟨hnotMem, hrest⟩ := List.nodup_cons.mp hnodup
      rw [List.flatMap_cons, List.count_append, ih hrest]
      by_cases ha : k = a
      · subst ha
        rw [List.count_replicate_self, if_neg hnotMem, if_pos (List.mem_cons_self ..)]
        rfl
      · rw [List.count_replicate, if_neg (by simpa using Ne.symm ha), Nat.zero_add]
        simp [ha]

/-- What stems from the rows of a table, each of them as often as its list is long. -/
theorem count_map_flatMap {base : List κ} (hnodup : base.Nodup) {f : κ → List ρ} {key : ρ → κ}
    (hkey : ∀ k ∈ base, ∀ r ∈ f k, key r = k) (k : κ) :
    ((base.flatMap f).map key).count k = if k ∈ base then (f k).length else 0 := by
  have hrows : (base.flatMap f).map key = base.flatMap fun k => List.replicate (f k).length k := by
    rw [List.map_flatMap]
    refine List.flatMap_congr fun k hk => ?_
    rw [List.eq_replicate_iff]
    refine ⟨List.length_map .., ?_⟩
    intro k' hk'
    obtain ⟨r, hr, rfl⟩ := List.mem_map.mp hk'
    exact hkey k hk r hr
  rw [hrows]
  exact count_flatMap_replicate hnodup _ k

theorem count_filter_of_nodup {base : List κ} (hnodup : base.Nodup) (p : κ → Bool) (k : κ) :
    (base.filter p).count k = if k ∈ base then (if p k then 1 else 0) else 0 := by
  by_cases hk : k ∈ base ∧ p k = true
  · rw [List.count_eq_one_of_mem (hnodup.filter p) (List.mem_filter.mpr hk), if_pos hk.1,
      if_pos hk.2]
  · rw [List.count_eq_zero_of_not_mem (fun h => hk (List.mem_filter.mp h))]
    split_ifs with hmem hp
    · exact absurd ⟨hmem, hp⟩ hk
    · rfl
    · rfl

/-- A query gives the rows of the table that the predicate picks, each of them once. -/
theorem perm_filter_iff {base : List κ} (hnodup : base.Nodup) {f : κ → List ρ} {key : ρ → κ}
    (hkey : ∀ k ∈ base, ∀ r ∈ f k, key r = k) (p : κ → Bool) :
    ((base.flatMap f).map key).Perm (base.filter p) ↔
      ∀ k ∈ base, (f k).length = if p k then 1 else 0 := by
  rw [List.perm_iff_count]
  constructor
  · intro h k hk
    have hcount := h k
    rwa [count_map_flatMap hnodup hkey, count_filter_of_nodup hnodup, if_pos hk, if_pos hk]
      at hcount
  · intro h k
    rw [count_map_flatMap hnodup hkey, count_filter_of_nodup hnodup]
    by_cases hk : k ∈ base
    · rw [if_pos hk, if_pos hk, h k hk]
    · rw [if_neg hk, if_neg hk]

end

/-- The rows of a query that gives nothing else, when no row stems twice from one. -/
theorem perm_filter_of_mem {base : List κ} (hnodup : base.Nodup) {rows : List ρ} {key : ρ → κ}
    (honce : (rows.map key).Nodup) {p : κ → Bool}
    (hmem : ∀ k, k ∈ rows.map key ↔ k ∈ base ∧ p k = true) :
    (rows.map key).Perm (base.filter p) := by
  rw [List.perm_ext_iff_of_nodup honce (hnodup.filter p)]
  intro k
  rw [hmem, List.mem_filter]

end Query
