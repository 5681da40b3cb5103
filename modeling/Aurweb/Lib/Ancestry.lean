/-
Walks over the history of a commit graph.

A commit has parents, and `Reach` leads from it to its ancestors, itself included.  A walk goes
through the commits once, each before its parents, and hands the marks of a commit on to those.
What it shows is what the marked commits reach and the hidden ones do not, whatever the merges
and however many roots there are.
-/
import Mathlib.Data.List.Basic
import Mathlib.Logic.Relation

namespace Ancestry

variable {α : Type*} (parents : α → List α)

/-- The second is an ancestor of the first, or the first itself. -/
def Reach : α → α → Prop := Relation.ReflTransGen fun c p => p ∈ parents c

/-- Each commit comes before its parents, and none of those is missing. -/
def Sorted : List α → Prop
  | [] => True
  | c :: rest => c ∉ rest ∧ (∀ p ∈ parents c, p ∈ rest) ∧ Sorted rest

/-- What one of the marks in the list reaches. -/
def Marked (order marks : List α) (d : α) : Prop := ∃ m ∈ marks, m ∈ order ∧ Reach parents m d

instance Sorted.decidable [DecidableEq α] : ∀ order : List α, Decidable (Sorted parents order)
  | [] => inferInstanceAs (Decidable True)
  | c :: rest =>
      haveI := Sorted.decidable rest
      inferInstanceAs (Decidable (c ∉ rest ∧ (∀ p ∈ parents c, p ∈ rest) ∧ Sorted parents rest))

/-- The walk through `order`; a commit that is hidden hides its parents, and one that is shown
has them shown. -/
def walk [DecidableEq α] : (order shown hidden : List α) → List α
  | [], _, _ => []
  | c :: rest, shown, hidden =>
      if c ∈ hidden then walk rest shown (parents c ++ hidden)
      else if c ∈ shown then c :: walk rest (parents c ++ shown) hidden
      else walk rest shown hidden

variable {parents} {order rest marks shown hidden : List α} {a b c d p : α}

theorem Reach.refl (c : α) : Reach parents c c := Relation.ReflTransGen.refl

theorem Reach.trans (hab : Reach parents a b) (hbc : Reach parents b c) : Reach parents a c :=
  Relation.ReflTransGen.trans hab hbc

theorem reach_iff_parent : Reach parents c d ↔ c = d ∨ ∃ p ∈ parents c, Reach parents p d :=
  Relation.ReflTransGen.cases_head_iff

/-- Everything `a` reaches is reached from `b` just when `a` itself is. -/
theorem reach_iff_forall : Reach parents b a ↔ ∀ d, Reach parents a d → Reach parents b d := by
  constructor
  · intro h d hd
    exact h.trans hd
  · intro h
    exact h a (Reach.refl a)

/-! ### Sorted lists -/

theorem Sorted.parent_mem (h : Sorted parents order) (hc : c ∈ order) (hp : p ∈ parents c) :
    p ∈ order := by
  induction order with
  | nil => cases hc
  | cons a rest ih =>
      obtain ⟨-, hparents, hrest⟩ := h
      apply List.mem_cons_of_mem
      rcases List.mem_cons.mp hc with rfl | hc
      · exact hparents p hp
      · exact ih hrest hc

/-- No ancestor is missing. -/
theorem Sorted.closed (h : Sorted parents order) (hc : c ∈ order) (hd : Reach parents c d) :
    d ∈ order := by
  induction hd with
  | refl => exact hc
  | tail _ hp ih => exact h.parent_mem ih hp

/-- What is sorted after a commit does not reach it. -/
theorem not_marked_head (h : Sorted parents (c :: rest)) : ¬Marked parents rest marks c := by
  intro hmarked
  obtain ⟨m, -, hm, hreach⟩ := hmarked
  exact h.1 (h.2.2.closed hm hreach)

/-! ### Marks -/

theorem marked_cons :
    Marked parents (c :: rest) marks d ↔
      (c ∈ marks ∧ Reach parents c d) ∨ Marked parents rest marks d := by
  constructor
  · intro h
    obtain ⟨m, hm, horder, hreach⟩ := h
    rcases List.mem_cons.mp horder with rfl | horder
    · exact Or.inl ⟨hm, hreach⟩
    · exact Or.inr ⟨m, hm, horder, hreach⟩
  · intro h
    rcases h with ⟨hm, hreach⟩ | ⟨m, hm, horder, hreach⟩
    · exact ⟨c, hm, List.mem_cons_self, hreach⟩
    · exact ⟨m, hm, List.mem_cons_of_mem _ horder, hreach⟩

theorem marked_append :
    Marked parents order (marks ++ hidden) d ↔
      Marked parents order marks d ∨ Marked parents order hidden d := by
  simp only [Marked, List.mem_append, or_and_right, exists_or]

theorem marked_of_subset (h : ∀ m ∈ marks, m ∈ order) :
    Marked parents order marks d ↔ ∃ m ∈ marks, Reach parents m d := by
  constructor
  · intro hmarked
    obtain ⟨m, hm, -, hreach⟩ := hmarked
    exact ⟨m, hm, hreach⟩
  · intro hmarked
    obtain ⟨m, hm, hreach⟩ := hmarked
    exact ⟨m, hm, h m hm, hreach⟩

/-- A commit that is marked hands its mark on to its parents. -/
theorem marked_cons_of_mem (h : Sorted parents (c :: rest)) (hc : c ∈ marks) :
    Marked parents (c :: rest) marks d ↔
      c = d ∨ Marked parents rest (parents c ++ marks) d := by
  rw [marked_cons, marked_append, marked_of_subset h.2.1, reach_iff_parent, and_iff_right hc,
    or_assoc]

theorem marked_cons_of_not_mem (hc : c ∉ marks) :
    Marked parents (c :: rest) marks d ↔ Marked parents rest marks d := by
  rw [marked_cons]
  constructor
  · intro h
    exact h.resolve_left fun hmark => hc hmark.1
  · exact Or.inr

/-! ### The walk -/

variable [DecidableEq α]

/-- **The walk shows what is reached from a mark and from no hidden one.** -/
theorem mem_walk (h : Sorted parents order) :
    d ∈ walk parents order shown hidden ↔
      Marked parents order shown d ∧ ¬Marked parents order hidden d := by
  induction order generalizing shown hidden with
  | nil => simp [walk, Marked]
  | cons c rest ih =>
      have hrest : Sorted parents rest := h.2.2
      have hhead : ∀ {marks : List α}, Marked parents rest marks d → c ≠ d := by
        intro marks hmarked heq
        exact not_marked_head h (heq ▸ hmarked)
      unfold walk
      by_cases hhidden : c ∈ hidden
      · -- Whatever is shown for the sake of `c` is hidden for its sake as well.
        rw [if_pos hhidden, ih hrest, marked_cons_of_mem h hhidden]
        by_cases hshown : c ∈ shown
        · rw [marked_cons_of_mem h hshown, marked_append, marked_append]
          grind
        · rw [marked_cons_of_not_mem hshown]
          grind
      · rw [if_neg hhidden, marked_cons_of_not_mem hhidden]
        by_cases hshown : c ∈ shown
        · rw [if_pos hshown, marked_cons_of_mem h hshown, List.mem_cons, ih hrest]
          grind
        · rw [if_neg hshown, marked_cons_of_not_mem hshown, ih hrest]

end Ancestry
