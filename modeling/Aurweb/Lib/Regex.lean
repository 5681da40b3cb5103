/-
Regular expressions without alternatives, as Python matches them.

A pattern is a list of items, each of which may leave several rests of the subject to the next;
there is a match when some way through the items is left at the end.  `$` is met at the end of the
subject and also before a line end that is its last character.
-/
import Mathlib.Data.List.Basic

namespace Regex

inductive Item
  /-- `^`. -/
  | start
  /-- `$`. -/
  | finish
  /-- `[…]?`. -/
  | optional (p : Char → Bool)
  /-- `[…]+`. -/
  | oneOrMore (p : Char → Bool)

/-- What may be left behind one or more characters, the longest match first. -/
def run (p : Char → Bool) : List Char → List (List Char)
  | [] => []
  | c :: cs => if p c then run p cs ++ [cs] else []

/-- What an item may leave of a rest of the subject. -/
def Item.rests (whole s : List Char) : Item → List (List Char)
  | .start => if s.length = whole.length then [s] else []
  | .finish => if s = [] ∨ s = ['\n'] then [s] else []
  | .optional p =>
      match s with
      | [] => [[]]
      | c :: cs => if p c then [cs, c :: cs] else [c :: cs]
  | .oneOrMore p => run p s

def rests (whole : List Char) : List Item → List Char → List (List Char)
  | [], s => [s]
  | item :: items, s => (item.rests whole s).flatMap (rests whole items)

/-- `re.match`. -/
def isMatch (items : List Item) (s : List Char) : Bool := !(rests s items s).isEmpty

theorem isMatch_iff {items : List Item} {s : List Char} :
    isMatch items s = true ↔ ∃ rest, rest ∈ rests s items s := by
  unfold isMatch
  rw [Bool.not_eq_true', List.isEmpty_eq_false_iff_exists_mem]

theorem mem_rests_cons {whole : List Char} {item : Item} {items : List Item} {s rest : List Char} :
    rest ∈ rests whole (item :: items) s ↔
      ∃ t ∈ item.rests whole s, rest ∈ rests whole items t := List.mem_flatMap

theorem mem_rests_nil {whole s rest : List Char} : rest ∈ rests whole [] s ↔ rest = s :=
  List.mem_singleton

theorem mem_run {p : Char → Bool} {s rest : List Char} :
    rest ∈ run p s ↔ ∃ name, name ≠ [] ∧ (∀ c ∈ name, p c = true) ∧ s = name ++ rest := by
  induction s with
  | nil =>
      constructor
      · intro h
        exact absurd h List.not_mem_nil
      · rintro ⟨name, hne, -, heq⟩
        exact absurd (List.append_eq_nil_iff.mp heq.symm).1 hne
  | cons c cs ih =>
      unfold run
      by_cases hc : p c = true
      · rw [if_pos hc, List.mem_append, ih, List.mem_singleton]
        constructor
        · rintro (⟨name, -, hname, rfl⟩ | rfl)
          · refine ⟨c :: name, List.cons_ne_nil _ _, ?_, rfl⟩
            intro c' hc'
            rcases List.mem_cons.mp hc' with rfl | hc'
            · exact hc
            · exact hname c' hc'
          · exact ⟨[c], List.cons_ne_nil _ _, by simpa using hc, rfl⟩
        · rintro ⟨name, hne, hname, heq⟩
          cases name with
          | nil => exact absurd rfl hne
          | cons c' name =>
              obtain ⟨rfl, rfl⟩ := List.cons.inj heq
              by_cases hnil : name = []
              · exact Or.inr (by rw [hnil]; rfl)
              · exact Or.inl ⟨name, hnil, fun a ha => hname a (List.mem_cons_of_mem _ ha), rfl⟩
      · rw [if_neg hc]
        constructor
        · intro h
          exact absurd h List.not_mem_nil
        · rintro ⟨name, hne, hname, heq⟩
          cases name with
          | nil => exact absurd rfl hne
          | cons c' name =>
              obtain ⟨rfl, -⟩ := List.cons.inj heq
              exact absurd (hname c (List.mem_cons_self ..)) hc

theorem mem_oneOrMore {p : Char → Bool} {whole s rest : List Char} :
    rest ∈ (Item.oneOrMore p).rests whole s ↔
      ∃ name, name ≠ [] ∧ (∀ c ∈ name, p c = true) ∧ s = name ++ rest := mem_run

theorem mem_optional {p : Char → Bool} {whole s rest : List Char} :
    rest ∈ (Item.optional p).rests whole s ↔ s = rest ∨ ∃ c, p c = true ∧ s = c :: rest := by
  unfold Item.rests
  cases s with
  | nil =>
      rw [List.mem_singleton]
      constructor
      · intro h
        exact Or.inl h.symm
      · rintro (rfl | ⟨c, -, heq⟩)
        · rfl
        · exact absurd heq.symm (List.cons_ne_nil _ _)
  | cons c cs =>
      by_cases hc : p c = true
      · simp only [if_pos hc, List.mem_cons, List.not_mem_nil, or_false, List.cons.injEq]
        constructor
        · rintro (rfl | rfl)
          · exact Or.inr ⟨c, hc, rfl, rfl⟩
          · exact Or.inl rfl
        · rintro (rfl | ⟨-, -, -, rfl⟩)
          · exact Or.inr rfl
          · exact Or.inl rfl
      · simp only [if_neg hc, List.mem_singleton, List.cons.injEq]
        constructor
        · intro h
          exact Or.inl h.symm
        · rintro (rfl | ⟨c', hc', rfl, -⟩)
          · rfl
          · exact absurd hc' hc

theorem mem_start {whole s rest : List Char} :
    rest ∈ Item.start.rests whole s ↔ rest = s ∧ s.length = whole.length := by
  unfold Item.rests
  by_cases h : s.length = whole.length <;> simp [h]

theorem mem_finish {whole s rest : List Char} :
    rest ∈ Item.finish.rests whole s ↔ rest = s ∧ (s = [] ∨ s = ['\n']) := by
  unfold Item.rests
  by_cases h : s = [] ∨ s = ['\n']
  · simp only [if_pos h, List.mem_singleton]
    exact ⟨fun heq => ⟨heq, h⟩, And.left⟩
  · simp only [if_neg h, List.not_mem_nil, false_iff]
    exact fun hboth => h hboth.2

end Regex
