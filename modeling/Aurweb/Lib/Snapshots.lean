/-
Snapshots of a directory that is written file by file.

A repository has the directory, an index and the trees of the commits, each of them a listing of
names.  A writer that always writes the same names in the same order leaves the names that are
there an initial part of them, wherever it is interrupted (`Within`).  So whatever an interrupted
writer has left behind, a complete one leaves exactly its files (`worktree_write`), and the status
is empty just when these are in the index and in the last commit already (`status_eq_nil`).
-/
import Aurweb.Lib.Dict
import Mathlib.Data.List.Destutter
import Mathlib.Data.List.Infix

/-! ### Listings whose names are an initial part -/

namespace Dict

variable {κ ν : Type*} [DecidableEq κ] {names : List κ} {d e : List (κ × ν)}

theorem foldl_setItem_cons {x : κ × ν} (l : List (κ × ν)) (d : List (κ × ν))
    (h : x.1 ∉ l.map (·.1)) : l.foldl setItem (x :: d) = x :: l.foldl setItem d := by
  induction l generalizing d with
  | nil => rfl
  | cons y l ih =>
      simp only [List.map_cons, List.mem_cons, not_or] at h
      rw [List.foldl_cons, setItem_cons, if_neg h.1, ih _ h.2]
      rfl

theorem foldl_setItem_within (h : names.Nodup) (hd : d.map (·.1) <+: names)
    (he : e.map (·.1) <+: names) : (e.foldl setItem d).map (·.1) <+: names := by
  induction names generalizing d e with
  | nil =>
      rw [List.prefix_nil, List.map_eq_nil_iff] at hd he
      rw [hd, he]
      exact List.nil_prefix
  | cons name names ih =>
      obtain ⟨hname, hnames⟩ := List.nodup_cons.mp h
      cases e with
      | nil => exact hd
      | cons y e =>
          obtain ⟨hy, he'⟩ := List.cons_prefix_cons.mp he
          have hnotMem : y.1 ∉ e.map (·.1) := fun hmem => hname (hy ▸ he'.subset hmem)
          cases d with
          | nil =>
              rw [List.foldl_cons, setItem, foldl_setItem_cons e [] hnotMem, List.map_cons]
              exact List.cons_prefix_cons.mpr ⟨hy, ih hnames List.nil_prefix he'⟩
          | cons x d =>
              obtain ⟨hx, hd'⟩ := List.cons_prefix_cons.mp hd
              rw [List.foldl_cons, setItem_cons, if_pos (hx.trans hy.symm),
                foldl_setItem_cons e d hnotMem, List.map_cons]
              exact List.cons_prefix_cons.mpr ⟨hy, ih hnames hd' he'⟩

/-- Assignments to all of the names leave nothing of what was there. -/
theorem foldl_setItem_eq (h : (e.map (·.1)).Nodup) (hd : d.map (·.1) <+: e.map (·.1)) :
    e.foldl setItem d = e := by
  induction e generalizing d with
  | nil =>
      rw [List.map_nil, List.prefix_nil, List.map_eq_nil_iff] at hd
      rw [hd]
      rfl
  | cons y e ih =>
      obtain ⟨hy, he⟩ := List.nodup_cons.mp h
      cases d with
      | nil => rw [List.foldl_cons, setItem, foldl_setItem_cons e [] hy,
          ih he (d := []) List.nil_prefix]
      | cons x d =>
          obtain ⟨hx, hd'⟩ := List.cons_prefix_cons.mp hd
          rw [List.foldl_cons, setItem_cons, if_pos hx, foldl_setItem_cons e d hy, ih he hd']

/-- Such listings are equal when they have the same under every name. -/
theorem eq_of_ofList_eq (h : names.Nodup) (hd : d.map (·.1) <+: names)
    (he : e.map (·.1) <+: names)
    (heq : ∀ k ∈ (d ++ e).map (·.1), ofList d k = ofList e k) : d = e := by
  induction names generalizing d e with
  | nil =>
      rw [List.prefix_nil, List.map_eq_nil_iff] at hd he
      rw [hd, he]
  | cons name names ih =>
      obtain ⟨hname, hnames⟩ := List.nodup_cons.mp h
      cases d with
      | nil =>
          cases e with
          | nil => rfl
          | cons y e =>
              have hy := heq y.1 (by simp)
              rw [ofList_cons, if_pos rfl] at hy
              cases hy
      | cons x d =>
          obtain ⟨hx, hd'⟩ := List.cons_prefix_cons.mp hd
          cases e with
          | nil =>
              have hx := heq x.1 (by simp)
              rw [ofList_cons, if_pos rfl] at hx
              cases hx
          | cons y e =>
              obtain ⟨hy, he'⟩ := List.cons_prefix_cons.mp he
              have hfirst := heq x.1 (by simp)
              rw [ofList_cons, ofList_cons, if_pos rfl, if_pos (hy.trans hx.symm)] at hfirst
              have hrest : d = e := by
                refine ih hnames hd' he' fun k hk => ?_
                have hne : ¬ name = k := by
                  rintro rfl
                  rw [List.map_append, List.mem_append] at hk
                  exact hname (hk.elim (fun hk => hd'.subset hk) fun hk => he'.subset hk)
                have hx' : ¬ x.1 = k := fun h => hne (hx.symm.trans h)
                have hy' : ¬ y.1 = k := fun h => hne (hy.symm.trans h)
                have hkeys := heq k (by
                  simp only [List.map_append, List.map_cons, List.mem_append, List.mem_cons] at hk ⊢
                  exact hk.imp Or.inr Or.inr)
                rw [ofList_cons, ofList_cons, if_neg hx', if_neg hy'] at hkeys
                exact hkeys
              rw [hrest, Prod.ext (hx.trans hy.symm) (Option.some.inj hfirst)]

end Dict

/-! ### Changes of a value -/

namespace Snapshots

theorem destutter'_concat {α : Type*} [DecidableEq α] (l : List α) (a x : α) :
    (l ++ [x]).destutter' (· ≠ ·) a =
      if (a :: l).getLast? = some x then l.destutter' (· ≠ ·) a
      else l.destutter' (· ≠ ·) a ++ [x] := by
  induction l generalizing a with
  | nil =>
      rw [List.nil_append, List.destutter'_singleton, List.destutter'_nil, List.getLast?_singleton]
      by_cases hax : a = x
      · rw [if_neg (not_not.mpr hax), if_pos (by rw [hax])]
      · rw [if_pos hax, if_neg fun h => hax (Option.some.inj h)]
        rfl
  | cons b l ih =>
      rw [List.cons_append, List.destutter'_cons, List.destutter'_cons, List.getLast?_cons_cons]
      by_cases hab : a ≠ b
      · rw [if_pos hab, if_pos hab, ih]
        split
        · rfl
        · rfl
      · rw [if_neg hab, if_neg hab, not_not.mp hab, ih]

/-- The last value is one that changed, unless it is what came before it. -/
theorem destutter_concat {α : Type*} [DecidableEq α] (l : List α) (x : α) :
    (l ++ [x]).destutter (· ≠ ·) =
      if l.getLast? = some x then l.destutter (· ≠ ·) else l.destutter (· ≠ ·) ++ [x] := by
  cases l with
  | nil => rfl
  | cons a l => exact destutter'_concat l a x

/-! ### Repositories -/

variable {ν δ : Type*}

structure Repo (ν δ : Type*) where
  worktree : List (ν × δ) := []
  index : List (ν × δ) := []
  commits : List (List (ν × δ)) := []
  deriving DecidableEq, Repr

namespace Repo

/-- The tree of the last commit. -/
def head (r : Repo ν δ) : List (ν × δ) := r.commits.getLast?.getD []

def write [DecidableEq ν] (r : Repo ν δ) (files : List (ν × δ)) : Repo ν δ :=
  { r with worktree := files.foldl Dict.setItem r.worktree }

def addAll (r : Repo ν δ) : Repo ν δ := { r with index := r.worktree }

def commit (r : Repo ν δ) : Repo ν δ := { r with commits := r.commits ++ [r.index] }

variable [DecidableEq ν] [DecidableEq δ]

/-- The names that are not the same in the last commit, the index and the directory. -/
def status (r : Repo ν δ) : List ν :=
  ((r.worktree ++ r.index ++ r.head).map (·.1)).filter fun name =>
    ¬ (Dict.ofList r.index name = Dict.ofList r.worktree name ∧
      Dict.ofList r.index name = Dict.ofList r.head name)

end Repo

/-- Every listing of a repository has an initial part of the names. -/
structure Within (names : List ν) (r : Repo ν δ) : Prop where
  worktree : r.worktree.map (·.1) <+: names
  index : r.index.map (·.1) <+: names
  head : r.head.map (·.1) <+: names

namespace Within

variable {names : List ν} {r : Repo ν δ}

theorem initial : Within names ({} : Repo ν δ) :=
  ⟨List.nil_prefix, List.nil_prefix, List.nil_prefix⟩

theorem addAll (h : Within names r) : Within names r.addAll := ⟨h.worktree, h.worktree, h.head⟩

theorem commit (h : Within names r) : Within names r.commit := by
  refine ⟨h.worktree, h.index, ?_⟩
  rw [Repo.head, Repo.commit, List.getLast?_concat]
  exact h.index

variable [DecidableEq ν]

theorem write (hnames : names.Nodup) (h : Within names r) {files : List (ν × δ)}
    (hfiles : files.map (·.1) <+: names) : Within names (r.write files) :=
  ⟨Dict.foldl_setItem_within hnames h.worktree hfiles, h.index, h.head⟩

/-- A complete writer leaves its files and no others. -/
theorem worktree_write {files : List (ν × δ)} (hnodup : (files.map (·.1)).Nodup)
    (h : Within (files.map (·.1)) r) : (r.write files).worktree = files :=
  Dict.foldl_setItem_eq hnodup h.worktree

theorem status_eq_nil [DecidableEq δ] (hnames : names.Nodup) (h : Within names r) :
    r.status = [] ↔ r.index = r.worktree ∧ r.head = r.worktree := by
  unfold Repo.status
  rw [List.filter_eq_nil_iff]
  constructor
  · intro hsame
    have hall : ∀ name ∈ (r.worktree ++ r.index ++ r.head).map (·.1),
        Dict.ofList r.index name = Dict.ofList r.worktree name ∧
          Dict.ofList r.index name = Dict.ofList r.head name := by
      intro name hname
      simpa using hsame name hname
    simp only [List.map_append, List.mem_append] at hall
    have hindex : r.index = r.worktree := by
      refine Dict.eq_of_ofList_eq hnames h.index h.worktree fun name hname => ?_
      rw [List.map_append, List.mem_append] at hname
      exact (hall name (Or.inl hname.symm)).1
    refine ⟨hindex, Dict.eq_of_ofList_eq hnames h.head h.worktree fun name hname => ?_⟩
    rw [List.map_append, List.mem_append] at hname
    obtain ⟨hworktree, hhead⟩ := hall name (hname.elim Or.inr fun hname => Or.inl (Or.inl hname))
    rw [← hworktree, hhead]
  · rintro ⟨hindex, hhead⟩ name -
    simp [hindex, hhead]

end Within

end Snapshots
