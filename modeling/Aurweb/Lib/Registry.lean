/-
Rows that are looked up by name and added when there is none.

A registry is a table of named rows with ids from a counter, and the ids that have been
linked to through it.  Linking a list of names adds rows at the end, never touches the
rows there were, and leaves ids that resolve to names equal to the ones asked for.
-/
import Aurweb.Lib.Table

namespace Registry

variable {ρ : Type*}

/-- How rows of a registry are made and read, and which names are the same. -/
structure Ops (ρ : Type*) where
  make : Nat → String → ρ
  id : ρ → Nat
  name : ρ → String
  same : String → String → Bool
  id_make : ∀ n s, id (make n s) = n
  name_make : ∀ n s, name (make n s) = s
  same_refl : ∀ s, same s s = true

structure State (ρ : Type*) where
  rows : List ρ
  links : List Nat
  next : Nat

variable (o : Ops ρ)

/-- The name an id stands for. -/
def nameOf (rows : List ρ) (i : Nat) : Option String :=
  (rows.find? fun r => o.id r == i).map o.name

/-- Link to the row of that name, which is added if need be. -/
def link (s : State ρ) (name : String) : State ρ :=
  match s.rows.find? fun r => o.same (o.name r) name with
  | some r => { s with links := s.links ++ [o.id r] }
  | none =>
      { rows := s.rows ++ [o.make s.next name], links := s.links ++ [s.next], next := s.next + 1 }

/-- Ids are unique, and the counter is past them. -/
structure Keyed (s : State ρ) : Prop where
  nodup : (s.rows.map o.id).Nodup
  fresh : ∀ r ∈ s.rows, o.id r < s.next

/-- What linking `names` does. -/
structure Linked (s s' : State ρ) (names : List String) : Prop where
  keyed : Keyed o s'
  next_le : s.next ≤ s'.next
  rows : ∃ added, s'.rows = s.rows ++ added ∧ ∀ r ∈ added, s.next ≤ o.id r
  links : ∃ ids, s'.links = s.links ++ ids ∧ (∀ i ∈ ids, i < s'.next) ∧
    List.Forall₂ (fun i name => ∃ n, nameOf o s'.rows i = some n ∧ o.same n name = true) ids names

variable {o}

/-- An id the counter has passed keeps its name, or stays without one. -/
theorem nameOf_append {rows added : List ρ} {n i : Nat} (hi : i < n)
    (hadded : ∀ r ∈ added, n ≤ o.id r) : nameOf o (rows ++ added) i = nameOf o rows i := by
  have hnone : added.find? (fun r => o.id r == i) = none := by
    rw [List.find?_eq_none]
    intro r hr
    have hle := hadded r hr
    have hne : o.id r ≠ i := by omega
    simpa using hne
  rw [nameOf, List.find?_append, hnone, Option.or_none]
  rfl

theorem nameOf_self {rows : List ρ} (hnodup : (rows.map o.id).Nodup) {r : ρ} (hr : r ∈ rows) :
    nameOf o rows (o.id r) = some (o.name r) := by
  rw [nameOf, Table.find?_key hnodup hr]
  rfl

theorem link_of_some {s : State ρ} {name : String} {r : ρ}
    (h : s.rows.find? (fun r => o.same (o.name r) name) = some r) :
    link o s name = { s with links := s.links ++ [o.id r] } := by
  simp only [link, h]

theorem link_of_none {s : State ρ} {name : String}
    (h : s.rows.find? (fun r => o.same (o.name r) name) = none) :
    link o s name =
      { rows := s.rows ++ [o.make s.next name], links := s.links ++ [s.next]
        next := s.next + 1 } := by
  simp only [link, h]

theorem linked_link {s : State ρ} (hs : Keyed o s) (name : String) :
    Linked o s (link o s name) [name] := by
  cases hfind : s.rows.find? fun r => o.same (o.name r) name with
  | some r =>
      rw [link_of_some hfind]
      have hmem : r ∈ s.rows := List.mem_of_find?_eq_some hfind
      have hsame : o.same (o.name r) name = true := by simpa using List.find?_some hfind
      have hkeyed : Keyed o { s with links := s.links ++ [o.id r] } := ⟨hs.nodup, hs.fresh⟩
      refine ⟨hkeyed, Nat.le_refl _, ⟨[], by simp, by simp⟩, [o.id r], rfl, ?_, ?_⟩
      · intro i hi
        obtain rfl := List.mem_singleton.mp hi
        exact hs.fresh r hmem
      · exact .cons ⟨o.name r, nameOf_self hs.nodup hmem, hsame⟩ .nil
  | none =>
      rw [link_of_none hfind]
      have hnew : o.id (o.make s.next name) = s.next := o.id_make _ _
      have hkeyed : Keyed o
          { rows := s.rows ++ [o.make s.next name], links := s.links ++ [s.next]
            next := s.next + 1 } := by
        constructor
        · show ((s.rows ++ [o.make s.next name]).map o.id).Nodup
          rw [List.map_append, List.map_singleton, hnew]
          refine List.Nodup.append hs.nodup (List.nodup_singleton _) ?_
          intro i hi hi'
          obtain rfl := List.mem_singleton.mp hi'
          obtain ⟨r, hr, hid⟩ := List.mem_map.mp hi
          have hlt := hs.fresh r hr
          omega
        · intro r hr
          show o.id r < s.next + 1
          rcases List.mem_append.mp hr with hr | hr
          · exact Nat.lt_succ_of_lt (hs.fresh r hr)
          · obtain rfl := List.mem_singleton.mp hr
            omega
      refine ⟨hkeyed, Nat.le_succ _, ⟨_, rfl, ?_⟩, [s.next], rfl, ?_, ?_⟩
      · intro r hr
        obtain rfl := List.mem_singleton.mp hr
        omega
      · intro i hi
        obtain rfl := List.mem_singleton.mp hi
        exact Nat.lt_succ_self _
      · have hmem : o.make s.next name ∈ s.rows ++ [o.make s.next name] := by simp
        have hself := nameOf_self hkeyed.nodup hmem
        rw [hnew, o.name_make] at hself
        exact .cons ⟨name, hself, o.same_refl name⟩ .nil

theorem Linked.trans {s s' s'' : State ρ} {names names' : List String} (h : Linked o s s' names)
    (h' : Linked o s' s'' names') : Linked o s s'' (names ++ names') := by
  obtain ⟨added, hrows, hadded⟩ := h.rows
  obtain ⟨added', hrows', hadded'⟩ := h'.rows
  obtain ⟨ids, hlinks, hlt, hall⟩ := h.links
  obtain ⟨ids', hlinks', hlt', hall'⟩ := h'.links
  have hle := h.next_le
  have hle' := h'.next_le
  refine ⟨h'.keyed, by omega, ⟨added ++ added', ?_, ?_⟩, ids ++ ids', ?_, ?_, ?_⟩
  · rw [hrows', hrows, List.append_assoc]
  · intro r hr
    rcases List.mem_append.mp hr with hr | hr
    · exact hadded r hr
    · exact Nat.le_trans hle (hadded' r hr)
  · rw [hlinks', hlinks, List.append_assoc]
  · intro i hi
    rcases List.mem_append.mp hi with hi | hi
    · exact Nat.lt_of_lt_of_le (hlt i hi) hle'
    · exact hlt' i hi
  · refine List.rel_append ?_ hall'
    -- the ids linked first are below the counter, so the later rows do not shadow them
    have hstable : ∀ i ∈ ids, nameOf o s''.rows i = nameOf o s'.rows i := by
      intro i hi
      rw [hrows']
      exact nameOf_append (hlt i hi) hadded'
    clear h hlinks hlt
    induction hall with
    | nil => exact .nil
    | cons hhead _ ih =>
        obtain ⟨n, hn, hsame⟩ := hhead
        refine .cons ⟨n, ?_, hsame⟩ (ih fun i hi => hstable i (by simp [hi]))
        rw [hstable _ (by simp), hn]

/-- **Linking a list of names**, one after another. -/
theorem linked_foldl {names : List String} {s : State ρ} (hs : Keyed o s) :
    Linked o s (names.foldl (link o) s) names := by
  induction names generalizing s with
  | nil => exact ⟨hs, Nat.le_refl _, ⟨[], by simp, by simp⟩, [], by simp, by simp, .nil⟩
  | cons name names ih =>
      have hfirst := linked_link hs name
      exact hfirst.trans (ih hfirst.keyed)

/-! ### Linking a name once -/

/-- Which names are the same is an equivalence. -/
def Ops.Euclidean (o : Ops ρ) : Prop :=
  ∀ a b c, o.same a b = true → o.same a c = true → o.same b c = true

section

variable {s s' : State ρ} {names : List String}

theorem Linked.next_fresh (h : Linked o s s' names) (hempty : s.links = []) :
    s'.next ∉ s'.links := by
  obtain ⟨ids, hids, hlt, -⟩ := h.links
  intro hmem
  rw [hids, hempty, List.nil_append] at hmem
  exact absurd (hlt _ hmem) (Nat.lt_irrefl _)

/-- The row of a name that has not been linked to has not been linked to either. -/
theorem Linked.row_fresh (heuclid : o.Euclidean) (h : Linked o s s' names)
    (hempty : s.links = []) {name : String} {r : ρ} (hr : r ∈ s'.rows)
    (hname : o.same (o.name r) name = true) (hnew : ∀ n ∈ names, o.same n name = false) :
    o.id r ∉ s'.links := by
  obtain ⟨ids, hids, -, hall⟩ := h.links
  intro hmem
  rw [hids, hempty, List.nil_append] at hmem
  obtain ⟨linked, hlinked, n, hn, hsame⟩ := Table.exists_of_forall₂_left hall hmem
  rw [nameOf_self h.keyed.nodup hr] at hn
  obtain rfl := Option.some.inj hn
  have htwice := heuclid _ _ _ hsame hname
  rw [hnew linked hlinked] at htwice
  cases htwice

end

end Registry
