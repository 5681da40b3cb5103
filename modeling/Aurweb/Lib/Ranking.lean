/-
Tables whose rows carry a rank.

A rank column says in which order the rows are read, and the table is sequential when the
ranks are 1 to the number of rows, each once.  Distinct ranks leave only one way to read
the table, `ranked_eq`, and every lemma about a statement goes by it: name the list, and
show that it is the table and that its ranks go up.
-/
import Mathlib.Data.List.Sort

namespace Aurweb.Ranking

variable {ρ κ : Type} {rank : ρ → Nat} {t : List ρ}

/-- `ORDER BY rank`. -/
def ranked (rank : ρ → Nat) (t : List ρ) : List ρ := t.insertionSort fun a b => rank a ≤ rank b

/-- The ranks are 1 to the number of rows. -/
def Sequential (rank : ρ → Nat) (t : List ρ) : Prop :=
  (t.map rank).Perm (List.range' 1 t.length)

instance (rank : ρ → Nat) (t : List ρ) : Decidable (Sequential rank t) :=
  inferInstanceAs (Decidable ((t.map rank).Perm (List.range' 1 t.length)))

/-! ### Reading in order -/

theorem perm_ranked (rank : ρ → Nat) (t : List ρ) : (ranked rank t).Perm t :=
  List.perm_insertionSort _ t

@[simp] theorem mem_ranked {r : ρ} : r ∈ ranked rank t ↔ r ∈ t := (perm_ranked rank t).mem_iff

@[simp] theorem length_ranked (rank : ρ → Nat) (t : List ρ) :
    (ranked rank t).length = t.length :=
  (perm_ranked rank t).length_eq

theorem pairwise_ranked (rank : ρ → Nat) (t : List ρ) :
    (ranked rank t).Pairwise fun a b => rank a ≤ rank b := by
  have htotal : Std.Total fun a b : ρ => rank a ≤ rank b := ⟨fun a b => Nat.le_total _ _⟩
  have htrans : IsTrans ρ fun a b => rank a ≤ rank b := ⟨fun _ _ _ => Nat.le_trans⟩
  exact List.pairwise_insertionSort _ t

/-- Ranks that go up are distinct. -/
theorem nodup_of_strict {l : List ρ} (h : l.Pairwise fun a b => rank a < rank b) :
    (l.map rank).Nodup := by
  rw [List.Nodup, List.pairwise_map]
  exact h.imp fun hlt => Nat.ne_of_lt hlt

theorem ranked_strict (h : (t.map rank).Nodup) :
    (ranked rank t).Pairwise fun a b => rank a < rank b := by
  have hnodup : ((ranked rank t).map rank).Nodup := ((perm_ranked rank t).map rank).nodup_iff.mpr h
  rw [List.Nodup, List.pairwise_map] at hnodup
  refine ((pairwise_ranked rank t).and hnodup).imp fun hranks => ?_
  exact Nat.lt_of_le_of_ne hranks.1 hranks.2

/-- The only list of the rows in which the ranks go up. -/
theorem ranked_eq {l : List ρ} (hperm : l.Perm t)
    (hstrict : l.Pairwise fun a b => rank a < rank b) : ranked rank t = l := by
  have hnodup : (l.map rank).Nodup := nodup_of_strict hstrict
  have hanti : ∀ a b, a ∈ ranked rank t → b ∈ l → rank a ≤ rank b → rank b ≤ rank a → a = b := by
    intro a b ha hb hab hba
    have ha' : a ∈ l := hperm.mem_iff.mpr (mem_ranked.mp ha)
    exact List.inj_on_of_nodup_map hnodup ha' hb (Nat.le_antisymm hab hba)
  exact List.Perm.eq_of_pairwise hanti (pairwise_ranked rank t) (hstrict.imp Nat.le_of_lt)
    ((perm_ranked rank t).trans hperm.symm)

/-! ### Statements -/

theorem ranked_filter (h : (t.map rank).Nodup) (p : ρ → Bool) :
    ranked rank (t.filter p) = (ranked rank t).filter p :=
  ranked_eq ((perm_ranked rank t).filter p) ((ranked_strict h).filter p)

/-- A row that is ranked below all others is read last. -/
theorem ranked_append (h : (t.map rank).Nodup) {r : ρ} (hlast : ∀ r' ∈ t, rank r' < rank r) :
    ranked rank (t ++ [r]) = ranked rank t ++ [r] := by
  refine ranked_eq ((perm_ranked rank t).append_right [r]) ?_
  refine List.pairwise_append.mpr ⟨ranked_strict h, List.pairwise_singleton _ _, ?_⟩
  intro r' hr' r'' hr''
  rw [List.mem_singleton.mp hr'']
  exact hlast r' (mem_ranked.mp hr')

/-- Rows that are numbered in the order in which they are read. -/
theorem map_rank_renumber [BEq κ] [LawfulBEq κ] {key : ρ → κ} (hkeyed : (t.map key).Nodup)
    {f : ρ → ρ}
    (hf : ∀ r ∈ t, rank (f r) = ((ranked rank t).map key).idxOf (key r) + 1) :
    ((ranked rank t).map fun r => rank (f r)) = List.range' 1 t.length := by
  have hnodup : ((ranked rank t).map key).Nodup := ((perm_ranked rank t).map key).nodup_iff.mpr hkeyed
  refine List.ext_getElem (by simp) fun i hi _ => ?_
  have hi' : i < (ranked rank t).length := by simpa using hi
  have hmem : (ranked rank t)[i] ∈ t := mem_ranked.mp (List.getElem_mem hi')
  have hidx : ((ranked rank t).map key).idxOf (key (ranked rank t)[i]) = i := by
    have hget := hnodup.idxOf_getElem i (by simpa using hi')
    simpa using hget
  rw [List.getElem_map, hf _ hmem, hidx, List.getElem_range']
  omega

theorem strict_of_map {l : List ρ} {m n : Nat} {g : ρ → Nat} (h : l.map g = List.range' m n) :
    l.Pairwise fun a b => g a < g b := by
  rw [← List.pairwise_map, h]
  exact List.pairwise_lt_range'

theorem ranked_renumber [BEq κ] [LawfulBEq κ] {key : ρ → κ} (hkeyed : (t.map key).Nodup)
    {f : ρ → ρ}
    (hf : ∀ r ∈ t, rank (f r) = ((ranked rank t).map key).idxOf (key r) + 1) :
    ranked rank (t.map f) = (ranked rank t).map f := by
  refine ranked_eq ((perm_ranked rank t).map f) ?_
  rw [List.pairwise_map]
  exact strict_of_map (map_rank_renumber hkeyed hf)

/-! ### Sequential ranks -/

namespace Sequential

theorem nil : Sequential rank [] := List.Perm.refl _

theorem nodup (h : Sequential rank t) : (t.map rank).Nodup :=
  h.nodup_iff.mpr (List.nodup_range' 1)

theorem le (h : Sequential rank t) {r : ρ} (hr : r ∈ t) : rank r ≤ t.length := by
  have hmem := h.mem_iff.mp (List.mem_map_of_mem hr)
  rw [List.mem_range'_1] at hmem
  omega

/-- In order, the ranks are 1, 2, … -/
theorem map_ranked (h : Sequential rank t) :
    (ranked rank t).map rank = List.range' 1 t.length := by
  have hleft : ((ranked rank t).map rank).Pairwise fun a b => a ≤ b := by
    rw [List.pairwise_map]
    exact pairwise_ranked rank t
  have hright : (List.range' 1 t.length).Pairwise fun a b => a ≤ b := by
    have hlt : (List.range' 1 t.length).Pairwise fun a b => a < b := List.pairwise_lt_range'
    exact hlt.imp Nat.le_of_lt
  refine List.Perm.eq_of_pairwise ?_ hleft hright (((perm_ranked rank t).map rank).trans h)
  intro a b _ _ hab hba
  exact Nat.le_antisymm hab hba

theorem of_map (h : (ranked rank t).map rank = List.range' 1 t.length) : Sequential rank t := by
  unfold Sequential
  rw [← h]
  exact ((perm_ranked rank t).map rank).symm

theorem renumber [BEq κ] [LawfulBEq κ] {key : ρ → κ} (hkeyed : (t.map key).Nodup) {f : ρ → ρ}
    (hf : ∀ r ∈ t, rank (f r) = ((ranked rank t).map key).idxOf (key r) + 1) :
    Sequential rank (t.map f) := by
  apply of_map
  rw [ranked_renumber hkeyed hf, List.map_map, List.length_map]
  exact map_rank_renumber hkeyed hf

theorem append (h : Sequential rank t) {r : ρ} (hr : rank r = t.length + 1) :
    Sequential rank (t ++ [r]) := by
  unfold Sequential
  rw [List.map_append, List.map_singleton, hr, List.length_append, List.length_singleton,
    List.range'_concat, Nat.one_mul, Nat.add_comm 1]
  exact h.append_right _

/-- The rank of the row that is read last. -/
theorem rank_getLast (h : Sequential rank t) {r : ρ} (hr : (ranked rank t).getLast? = some r) :
    rank r = t.length := by
  obtain ⟨init, hinit⟩ := List.getLast?_eq_some_iff.mp hr
  have hmap := h.map_ranked
  have hlength : init.length + 1 = t.length := by
    rw [← length_ranked rank t, hinit, List.length_append, List.length_singleton]
  rw [hinit, List.map_append, List.map_singleton, ← hlength, List.range'_concat] at hmap
  have hlast := List.append_inj_right' hmap rfl
  have hrank := List.cons.inj hlast
  omega

/-- The row that is read last can go. -/
theorem dropLast [BEq κ] [LawfulBEq κ] {key : ρ → κ} (hkeyed : (t.map key).Nodup)
    (h : Sequential rank t) {r : ρ} (hr : (ranked rank t).getLast? = some r) :
    Sequential rank (t.filter fun r' => !(key r' == key r)) := by
  obtain ⟨init, hinit⟩ := List.getLast?_eq_some_iff.mp hr
  have hnodup : ((ranked rank t).map key).Nodup := ((perm_ranked rank t).map key).nodup_iff.mpr hkeyed
  have hothers : (ranked rank t).filter (fun r' => !(key r' == key r)) = init := by
    rw [hinit, List.map_append, List.map_singleton, List.nodup_append] at hnodup
    rw [hinit, List.filter_append, List.filter_singleton]
    have hkept : init.filter (fun r' => !(key r' == key r)) = init := by
      refine List.filter_eq_self.mpr fun r' hr' => ?_
      have hne := hnodup.2.2 _ (List.mem_map_of_mem hr') (key r) (by simp)
      simpa using hne
    simp [hkept]
  have hranked := ranked_filter h.nodup fun r' => !(key r' == key r)
  rw [hothers] at hranked
  have hmap := h.map_ranked
  have hlength : init.length + 1 = t.length := by
    rw [← length_ranked rank t, hinit, List.length_append, List.length_singleton]
  rw [hinit, List.map_append, List.map_singleton, ← hlength, List.range'_concat] at hmap
  apply of_map
  rw [← length_ranked rank (t.filter _), hranked]
  exact List.append_inj_left' hmap rfl

end Sequential

end Aurweb.Ranking
