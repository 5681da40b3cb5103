/-
Dictionaries, told by what they have under a key.

`collect` is a `defaultdict(list)` that has been filled: a key is there when a value was appended
under it (`collect_apply`).  `items` lists such a dictionary, with the keys as they came.
-/
import Mathlib.Data.List.Induction

namespace Dict

variable {κ ν α : Type*}

/-- `d.update(e)`. -/
def update (d e : κ → Option ν) (k : κ) : Option ν := (e k).or (d k)

section

variable [DecidableEq κ]

/-- A literal, of different keys. -/
def ofList (l : List (κ × ν)) (k : κ) : Option ν := (l.find? (·.1 = k)).map (·.2)

theorem ofList_eq_none {l : List (κ × ν)} {k : κ} (h : k ∉ l.map (·.1)) : ofList l k = none := by
  rw [ofList, Option.map_eq_none_iff, List.find?_eq_none]
  intro x hx hk
  exact h (List.mem_map.mpr ⟨x, hx, of_decide_eq_true hk⟩)

/-- `d[k].append(a)`, in a `defaultdict(list)`. -/
def append (d : κ → Option (List α)) (x : κ × α) (k : κ) : Option (List α) :=
  if k = x.1 then some ((d k).getD [] ++ [x.2]) else d k

/-- The values, each appended under its key. -/
def collect (l : List (κ × α)) : κ → Option (List α) := l.foldl append fun _ => none

/-- The values of a key. -/
def valuesAt (l : List (κ × α)) (k : κ) : List α := (l.filter (·.1 = k)).map (·.2)

theorem valuesAt_cons (x : κ × α) (l : List (κ × α)) (k : κ) :
    valuesAt (x :: l) k = if k = x.1 then x.2 :: valuesAt l k else valuesAt l k := by
  unfold valuesAt
  by_cases hk : k = x.1
  · rw [if_pos hk, List.filter_cons_of_pos (by simpa using hk.symm), List.map_cons]
  · rw [if_neg hk, List.filter_cons_of_neg (by simpa using Ne.symm hk)]

theorem foldl_append_apply (l : List (κ × α)) (d : κ → Option (List α)) (k : κ) :
    l.foldl append d k =
      if valuesAt l k = [] then d k else some ((d k).getD [] ++ valuesAt l k) := by
  induction l generalizing d with
  | nil => rfl
  | cons x l ih =>
      rw [List.foldl_cons, ih, valuesAt_cons]
      by_cases hk : k = x.1
      · rw [if_pos hk, if_neg (List.cons_ne_nil _ _), append, if_pos hk]
        by_cases hnil : valuesAt l k = []
        · rw [if_pos hnil, hnil]
        · rw [if_neg hnil, Option.getD_some, List.append_assoc, List.singleton_append]
      · rw [if_neg hk, append, if_neg hk]

theorem collect_apply (l : List (κ × α)) (k : κ) :
    collect l k = if valuesAt l k = [] then none else some (valuesAt l k) := by
  unfold collect
  rw [foldl_append_apply]
  rfl

/-- In another order there are the same values under a key, in another order. -/
theorem valuesAt_perm {l l' : List (κ × α)} (h : l.Perm l') (k : κ) :
    (valuesAt l k).Perm (valuesAt l' k) := (h.filter _).map _

/-- `d[k] = v`. -/
def set (d : κ → Option ν) (x : κ × ν) (k : κ) : Option ν := if k = x.1 then some x.2 else d k

/-- What a key has after all of these assignments. -/
def assign (l : List (κ × ν)) : κ → Option ν := l.foldl set fun _ => none

/-- The last assignment counts. -/
theorem assign_append (l : List (κ × ν)) (x : κ × ν) (k : κ) :
    assign (l ++ [x]) k = if k = x.1 then some x.2 else assign l k := by
  unfold assign
  rw [List.foldl_append]
  rfl

/-- Assignments of one value, after others. -/
theorem assign_append_of_eq {l l' : List (κ × ν)} {v : ν} (h : ∀ x ∈ l', x.2 = v) (k : κ) :
    assign (l ++ l') k = if k ∈ l'.map (·.1) then some v else assign l k := by
  induction l' using List.reverseRecOn with
  | nil => simp
  | append_singleton l' x ih =>
      rw [← List.append_assoc, assign_append, ih fun y hy => h y (List.mem_append_left _ hy),
        h x (by simp), List.map_append, List.map_singleton]
      by_cases hk : k = x.1
      · rw [if_pos hk, if_pos (by simp [hk])]
      · rw [if_neg hk]
        simp only [List.mem_append, List.mem_singleton, hk, or_false]

/-! ### In the order of insertion -/

/-- `d.setdefault(k, []).append(a)`, on the items. -/
def setdefaultAppend : List (κ × List α) → κ × α → List (κ × List α)
  | [], x => [(x.1, [x.2])]
  | item :: d, x =>
      if item.1 = x.1 then (item.1, item.2 ++ [x.2]) :: d else item :: setdefaultAppend d x

/-- `d.items()`, after the values have been appended under their keys. -/
def items (l : List (κ × α)) : List (κ × List α) := l.foldl setdefaultAppend []

theorem ofList_cons (item : κ × ν) (d : List (κ × ν)) (k : κ) :
    ofList (item :: d) k = if item.1 = k then some item.2 else ofList d k := by
  unfold ofList
  by_cases hk : item.1 = k
  · rw [if_pos hk, List.find?_cons_of_pos (by simpa using hk)]
    rfl
  · rw [if_neg hk, List.find?_cons_of_neg (by simpa using hk)]

theorem ofList_setdefaultAppend (d : List (κ × List α)) (x : κ × α) :
    ofList (setdefaultAppend d x) = append (ofList d) x := by
  funext k
  induction d with
  | nil =>
      rw [setdefaultAppend, ofList_cons, append]
      by_cases hk : k = x.1
      · rw [if_pos hk.symm, if_pos hk]
        rfl
      · rw [if_neg (Ne.symm hk), if_neg hk]
  | cons item d ih =>
      unfold setdefaultAppend
      by_cases hitem : item.1 = x.1
      · rw [if_pos hitem, ofList_cons, append, ofList_cons]
        by_cases hk : k = x.1
        · rw [if_pos (hitem.trans hk.symm), if_pos hk, if_pos (hitem.trans hk.symm)]
          rfl
        · rw [if_neg (fun h => hk (h.symm.trans hitem)), if_neg hk,
            if_neg (fun h => hk (h.symm.trans hitem))]
      · rw [if_neg hitem, ofList_cons, ih, append, append, ofList_cons]
        by_cases hk : k = x.1
        · rw [if_neg (fun h => hitem (h.trans hk)), if_pos hk, if_pos hk,
            if_neg (fun h => hitem (h.trans hk))]
        · rw [if_neg hk, if_neg hk]

theorem keys_setdefaultAppend {d : List (κ × List α)} {x : κ × α} {k : κ}
    (hk : k ∈ (setdefaultAppend d x).map (·.1)) : k = x.1 ∨ k ∈ d.map (·.1) := by
  induction d with
  | nil => exact Or.inl (List.mem_singleton.mp hk)
  | cons item d ih =>
      unfold setdefaultAppend at hk
      by_cases hitem : item.1 = x.1
      · rw [if_pos hitem] at hk
        exact Or.inr hk
      · rw [if_neg hitem, List.map_cons, List.mem_cons] at hk
        rw [List.map_cons, List.mem_cons]
        rcases hk with hk | hk
        · exact Or.inr (Or.inl hk)
        · exact (ih hk).imp_right Or.inr

theorem nodup_setdefaultAppend {d : List (κ × List α)} (h : (d.map (·.1)).Nodup) (x : κ × α) :
    ((setdefaultAppend d x).map (·.1)).Nodup := by
  induction d with
  | nil => simp [setdefaultAppend]
  | cons item d ih =>
      obtain ⟨hnotMem, hrest⟩ := List.nodup_cons.mp h
      unfold setdefaultAppend
      by_cases hitem : item.1 = x.1
      · rw [if_pos hitem]
        exact h
      · rw [if_neg hitem, List.map_cons, List.nodup_cons]
        refine ⟨fun hmem => ?_, ih hrest⟩
        rcases keys_setdefaultAppend hmem with heq | hmem
        · exact hitem heq
        · exact hnotMem hmem

theorem mem_iff_ofList {d : List (κ × ν)} (h : (d.map (·.1)).Nodup) {k : κ} {v : ν} :
    (k, v) ∈ d ↔ ofList d k = some v := by
  induction d with
  | nil => simp [ofList]
  | cons item d ih =>
      obtain ⟨hnotMem, hrest⟩ := List.nodup_cons.mp h
      rw [ofList_cons, List.mem_cons]
      by_cases hk : item.1 = k
      · have hgone : (k, v) ∉ d := fun hmem => hnotMem (List.mem_map.mpr ⟨(k, v), hmem, hk.symm⟩)
        rw [if_pos hk, Option.some.injEq]
        refine ⟨fun hmem => ?_, fun heq => Or.inl (Prod.ext hk.symm heq.symm)⟩
        rw [← hmem.resolve_right hgone]
      · rw [if_neg hk, ← ih hrest]
        refine ⟨fun hmem => hmem.resolve_left fun heq => hk ?_, Or.inr⟩
        rw [← heq]

theorem foldl_setdefaultAppend (l : List (κ × α)) {d : List (κ × List α)}
    (h : (d.map (·.1)).Nodup) :
    ((l.foldl setdefaultAppend d).map (·.1)).Nodup ∧
      ofList (l.foldl setdefaultAppend d) = l.foldl append (ofList d) := by
  induction l generalizing d with
  | nil => exact ⟨h, rfl⟩
  | cons x l ih =>
      rw [List.foldl_cons, List.foldl_cons, ← ofList_setdefaultAppend]
      exact ih (nodup_setdefaultAppend h x)

/-- A key comes with all of its values. -/
theorem mem_items {l : List (κ × α)} {k : κ} {as : List α} :
    (k, as) ∈ items l ↔ valuesAt l k = as ∧ as ≠ [] := by
  obtain ⟨hnodup, heq⟩ := foldl_setdefaultAppend (d := []) l List.nodup_nil
  have hcollect : ofList (items l) k = collect l k := congrFun heq k
  have hmem : (k, as) ∈ items l ↔ ofList (items l) k = some as := mem_iff_ofList hnodup
  rw [hmem, hcollect, collect_apply]
  by_cases hnil : valuesAt l k = []
  · rw [if_pos hnil, hnil]
    constructor
    · intro h
      cases h
    · intro h
      exact absurd h.1.symm h.2
  · rw [if_neg hnil, Option.some.injEq]
    refine ⟨fun h => ⟨h, h ▸ hnil⟩, And.left⟩

theorem mem_valuesAt {l : List (κ × α)} {k : κ} {a : α} : a ∈ valuesAt l k ↔ (k, a) ∈ l := by
  unfold valuesAt
  rw [List.mem_map]
  constructor
  · rintro ⟨x, hx, rfl⟩
    obtain ⟨hmem, hk⟩ := List.mem_filter.mp hx
    rw [← of_decide_eq_true hk]
    exact hmem
  · intro hmem
    exact ⟨(k, a), List.mem_filter.mpr ⟨hmem, by simp⟩, rfl⟩

/-! ### The last value of a key -/

/-- `d[k] = v`, on the items. -/
def setItem : List (κ × ν) → κ × ν → List (κ × ν)
  | [], x => [x]
  | y :: d, x => if y.1 = x.1 then x :: d else y :: setItem d x

/-- `{k: v for k, v in l}`. -/
def ofPairs (l : List (κ × ν)) : List (κ × ν) := l.foldl setItem []

theorem setItem_cons (y : κ × ν) (d : List (κ × ν)) (x : κ × ν) :
    setItem (y :: d) x = if y.1 = x.1 then x :: d else y :: setItem d x := rfl

theorem keys_setItem (d : List (κ × ν)) (x : κ × ν) :
    (setItem d x).map (·.1) = if x.1 ∈ d.map (·.1) then d.map (·.1) else d.map (·.1) ++ [x.1] := by
  induction d with
  | nil => rfl
  | cons y d ih =>
      unfold setItem
      by_cases hy : y.1 = x.1
      · rw [if_pos hy, if_pos (by simp [hy]), List.map_cons, List.map_cons, hy]
      · rw [if_neg hy, List.map_cons, ih, List.map_cons]
        by_cases hx : x.1 ∈ d.map (·.1)
        · rw [if_pos hx, if_pos (List.mem_cons_of_mem _ hx)]
        · rw [if_neg hx, if_neg (by simp only [List.mem_cons, not_or]; exact ⟨Ne.symm hy, hx⟩)]
          rfl

theorem setItem_of_notMem {d : List (κ × ν)} {x : κ × ν} (h : x.1 ∉ d.map (·.1)) :
    setItem d x = d ++ [x] := by
  induction d with
  | nil => rfl
  | cons y d ih =>
      simp only [List.map_cons, List.mem_cons, not_or] at h
      rw [setItem, if_neg (Ne.symm h.1), ih h.2]
      rfl

/-- Each key is there once, and the keys are in the order they came in. -/
theorem keys_foldl_setItem (l : List (κ × ν)) : ∀ {d : List (κ × ν)}, (d.map (·.1)).Nodup →
    ((l.foldl setItem d).map (·.1)).Nodup ∧
      ((l.foldl setItem d).map (·.1)).Sublist (d.map (·.1) ++ l.map (·.1)) := by
  induction l with
  | nil =>
      intro d hd
      rw [List.map_nil, List.append_nil]
      exact ⟨hd, List.Sublist.refl _⟩
  | cons x l ih =>
      intro d hd
      have hkeys := keys_setItem d x
      rw [List.foldl_cons, List.map_cons]
      by_cases hx : x.1 ∈ d.map (·.1)
      · rw [if_pos hx] at hkeys
        obtain ⟨hnodup, hsub⟩ := ih (d := setItem d x) (by rwa [hkeys])
        rw [hkeys] at hsub
        exact ⟨hnodup, hsub.trans ((List.sublist_cons_self _ _).append_left _)⟩
      · rw [if_neg hx] at hkeys
        have hnew : ((setItem d x).map (·.1)).Nodup := by
          rw [hkeys, List.nodup_append]
          refine ⟨hd, List.pairwise_singleton _ _, ?_⟩
          intro k hk k' hk' heq
          rw [List.mem_singleton.mp hk'] at heq
          exact hx (heq ▸ hk)
        obtain ⟨hnodup, hsub⟩ := ih hnew
        rw [hkeys, List.append_assoc] at hsub
        exact ⟨hnodup, hsub⟩

theorem keys_ofPairs (l : List (κ × ν)) :
    ((ofPairs l).map (·.1)).Nodup ∧ ((ofPairs l).map (·.1)).Sublist (l.map (·.1)) :=
  keys_foldl_setItem l List.nodup_nil

/-- Pairs of different keys are the items. -/
theorem ofPairs_of_nodup {l : List (κ × ν)} (h : (l.map (·.1)).Nodup) : ofPairs l = l := by
  have hgen : ∀ (l d : List (κ × ν)), ((d ++ l).map (·.1)).Nodup → l.foldl setItem d = d ++ l := by
    intro l
    induction l with
    | nil => intro d _; exact (List.append_nil d).symm
    | cons x l ih =>
        intro d hd
        have hx : x.1 ∉ d.map (·.1) := by
          rw [List.map_append, List.nodup_append] at hd
          intro hmem
          exact hd.2.2 x.1 hmem x.1 (by simp) rfl
        rw [List.foldl_cons, setItem_of_notMem hx, ih _ (by rwa [List.append_assoc]),
          List.append_assoc]
        rfl
  exact hgen l [] h

theorem filter_setItem (p : κ → Bool) (d : List (κ × ν)) (x : κ × ν) :
    (setItem d x).filter (fun y => p y.1) =
      if p x.1 then setItem (d.filter fun y => p y.1) x else d.filter fun y => p y.1 := by
  induction d with
  | nil => cases hp : p x.1 <;> simp [setItem, hp]
  | cons y d ih =>
      rw [setItem_cons, List.filter_cons]
      by_cases hy : y.1 = x.1
      · rw [if_pos hy, List.filter_cons, hy]
        cases hp : p x.1 <;> simp [setItem_cons, hy]
      · rw [if_neg hy, List.filter_cons, ih]
        cases hp : p x.1 <;> cases hq : p y.1 <;> simp [setItem_cons, hy]

/-- The items of some keys. -/
theorem filter_ofPairs (p : κ → Bool) (l : List (κ × ν)) :
    (ofPairs l).filter (fun y => p y.1) = ofPairs (l.filter fun y => p y.1) := by
  have hgen : ∀ (l d : List (κ × ν)), (l.foldl setItem d).filter (fun y => p y.1) =
      (l.filter fun y => p y.1).foldl setItem (d.filter fun y => p y.1) := by
    intro l
    induction l with
    | nil => intro d; rfl
    | cons x l ih =>
        intro d
        rw [List.foldl_cons, ih, filter_setItem, List.filter_cons]
        split
        · rw [List.foldl_cons]
        · rfl
  exact hgen l []

theorem mem_keys_ofPairs {l : List (κ × ν)} {k : κ} :
    k ∈ (ofPairs l).map (·.1) ↔ k ∈ l.map (·.1) := by
  have hgen : ∀ (l d : List (κ × ν)),
      k ∈ (l.foldl setItem d).map (·.1) ↔ k ∈ d.map (·.1) ∨ k ∈ l.map (·.1) := by
    intro l
    induction l with
    | nil => simp
    | cons x l ih =>
        intro d
        rw [List.foldl_cons, ih, keys_setItem, List.map_cons, List.mem_cons]
        by_cases hx : x.1 ∈ d.map (·.1)
        · rw [if_pos hx]
          constructor
          · exact Or.imp_right Or.inr
          · rintro (hd | rfl | hl)
            · exact Or.inl hd
            · exact Or.inl hx
            · exact Or.inr hl
        · rw [if_neg hx, List.mem_append, List.mem_singleton, or_assoc]
  rw [ofPairs, hgen]
  simp

theorem mem_of_mem_setItem {d : List (κ × ν)} {x y : κ × ν} (h : y ∈ setItem d x) :
    y = x ∨ y ∈ d := by
  induction d with
  | nil => exact Or.inl (List.mem_singleton.mp h)
  | cons z d ih =>
      rw [setItem_cons] at h
      split at h
      · exact (List.mem_cons.mp h).imp_right (List.mem_cons_of_mem z)
      · rcases List.mem_cons.mp h with rfl | h
        · exact Or.inr (List.mem_cons_self ..)
        · exact (ih h).imp_right (List.mem_cons_of_mem z)

/-- An item is one of the pairs. -/
theorem mem_of_mem_ofPairs {l : List (κ × ν)} {x : κ × ν} (h : x ∈ ofPairs l) : x ∈ l := by
  have hgen : ∀ (l d : List (κ × ν)), x ∈ l.foldl setItem d → x ∈ d ∨ x ∈ l := by
    intro l
    induction l with
    | nil => exact fun d hd => Or.inl hd
    | cons y l ih =>
        intro d hx
        rcases ih _ hx with hd | hl
        · rcases mem_of_mem_setItem hd with rfl | hd
          · exact Or.inr (List.mem_cons_self ..)
          · exact Or.inl hd
        · exact Or.inr (List.mem_cons_of_mem y hl)
  exact (hgen l [] h).resolve_left List.not_mem_nil

/-- A key has the value of one of its pairs. -/
theorem exists_ofList_ofPairs {l : List (κ × ν)} {k : κ} (h : k ∈ l.map (·.1)) :
    ∃ v, ofList (ofPairs l) k = some v ∧ (k, v) ∈ l := by
  obtain ⟨x, hx, rfl⟩ := List.mem_map.mp (mem_keys_ofPairs.mpr h)
  exact ⟨x.2, (mem_iff_ofList (keys_ofPairs l).1).mp hx, mem_of_mem_ofPairs hx⟩

end

end Dict
