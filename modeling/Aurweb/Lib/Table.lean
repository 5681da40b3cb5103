/-
Tables as lists of rows.

`update` and `delete` are SQL's statements of the same name with the `WHERE` clause
as a predicate; a row is inserted by appending it.  `Evolves R New t t'` is the one
thing the proofs ever say about how a table got from `t` to `t'`: some rows were
deleted, each surviving row moved by `R`, and every row appended since is `New`.  It
composes, so what an operation does to a table is found statement by statement.
-/
import Mathlib.Data.List.Basic
import Mathlib.Data.List.Nodup
import Mathlib.Data.List.Forall2

namespace Table

variable {ρ κ : Type*}

/-- `UPDATE t SET f WHERE p`. -/
def update (p : ρ → Bool) (f : ρ → ρ) (t : List ρ) : List ρ :=
  t.map fun r => if p r then f r else r

/-- `DELETE FROM t WHERE p`. -/
def delete (p : ρ → Bool) (t : List ρ) : List ρ :=
  t.filter fun r => !p r

theorem mem_update {p : ρ → Bool} {f : ρ → ρ} {t : List ρ} {r : ρ} :
    r ∈ update p f t ↔ ∃ r₀ ∈ t, (if p r₀ then f r₀ else r₀) = r := by
  simp [update]

@[simp] theorem mem_delete {p : ρ → Bool} {t : List ρ} {r : ρ} :
    r ∈ delete p t ↔ r ∈ t ∧ p r = false := by
  simp [delete]

/-- An update that keeps a column keeps the column's list of values. -/
theorem map_update {p : ρ → Bool} {f : ρ → ρ} {key : ρ → κ} (h : ∀ r, key (f r) = key r)
    (t : List ρ) : (update p f t).map key = t.map key := by
  rw [update, List.map_map]
  refine List.map_congr_left fun r _ => ?_
  by_cases hp : p r <;> simp [hp, h]

/-- What an update does to some of the columns is an update of those. -/
theorem map_update_comm {g : ρ → κ} {p : ρ → Bool} {f : ρ → ρ} {q : κ → Bool} {h : κ → κ}
    {t : List ρ} (hp : ∀ r, q (g r) = p r) (hf : ∀ r ∈ t, p r = true → g (f r) = h (g r)) :
    (update p f t).map g = update q h (t.map g) := by
  rw [update, update, List.map_map, List.map_map]
  refine List.map_congr_left fun r hr => ?_
  by_cases hpr : p r = true
  · simp [hp, hpr, hf r hr hpr]
  · simp [hp, hpr]

/-- An update does nothing when every row it finds is already as it would be. -/
theorem update_eq_self_iff {p : ρ → Bool} {f : ρ → ρ} {t : List ρ} :
    update p f t = t ↔ ∀ r ∈ t, p r = true → f r = r := by
  have hid : update p f t = t.map id ↔ ∀ r ∈ t, (if p r = true then f r else r) = id r :=
    List.map_inj_left
  rw [List.map_id] at hid
  rw [hid]
  refine forall₂_congr fun r _ => ?_
  by_cases hp : p r = true
  · simp [hp]
  · simp [hp]

/-- Two updates of the same rows are one. -/
theorem update_update {p : ρ → Bool} {f g : ρ → ρ} (h : ∀ r, p (f r) = p r) (t : List ρ) :
    update p g (update p f t) = update p (fun r => g (f r)) t := by
  simp only [update, List.map_map]
  refine List.map_congr_left fun r _ => ?_
  by_cases hp : p r = true <;> simp [hp, h]

/-! ### Writing rows by their keys -/

section

variable {β : Type*} [DecidableEq κ] {key : ρ → κ} {put : ρ → β → ρ}

/-- What `UPDATE t SET put WHERE key = ?` makes of a row, for one pair after another. -/
def writes (key : ρ → κ) (put : ρ → β → ρ) (changes : List (κ × β)) (r : ρ) : ρ :=
  changes.foldl (fun r change => if key r = change.1 then put r change.2 else r) r

theorem writes_cons (change : κ × β) (changes : List (κ × β)) (r : ρ) :
    writes key put (change :: changes) r =
      writes key put changes (if key r = change.1 then put r change.2 else r) := rfl

/-- The statements one after another are one pass over the rows. -/
theorem foldl_update (changes : List (κ × β)) (t : List ρ) :
    changes.foldl (fun t change => update (key · == change.1) (put · change.2) t) t =
      t.map (writes key put changes) := by
  induction changes generalizing t with
  | nil => exact (List.map_id' t).symm
  | cons change changes ih =>
      rw [List.foldl_cons, ih, update, List.map_map]
      refine List.map_congr_left fun r _ => ?_
      rw [Function.comp_apply, writes_cons]
      by_cases hkey : key r = change.1
      · rw [if_pos hkey, if_pos (beq_iff_eq.mpr hkey)]
      · rw [if_neg hkey, if_neg (fun h => hkey (beq_iff_eq.mp h))]

theorem writes_of_notMem {changes : List (κ × β)} {r : ρ} (h : key r ∉ changes.map (·.1)) :
    writes key put changes r = r := by
  induction changes with
  | nil => rfl
  | cons change changes ih =>
      rw [List.map_cons, List.mem_cons, not_or] at h
      rw [writes_cons, if_neg h.1]
      exact ih h.2

/-- A row that is always set to the same is set to it. -/
theorem writes_of_same {changes : List (κ × β)} {r : ρ} {b : β}
    (hkey : ∀ r b, key (put r b) = key r) (hput : ∀ r, put (put r b) b = put r b)
    (hsame : ∀ change ∈ changes, change.1 = key r → change.2 = b)
    (h : key r ∈ changes.map (·.1)) : writes key put changes r = put r b := by
  induction changes generalizing r with
  | nil => cases h
  | cons change changes ih =>
      rw [writes_cons]
      have hrest : ∀ change ∈ changes, change.1 = key r → change.2 = b := fun c hc =>
        hsame c (List.mem_cons_of_mem _ hc)
      by_cases hid : key r = change.1
      · rw [if_pos hid, hsame change (List.mem_cons_self ..) hid.symm]
        by_cases hagain : key r ∈ changes.map (·.1)
        · rw [ih (by rwa [hkey]) (by rwa [hkey]), hput]
        · exact writes_of_notMem (by rwa [hkey])
      · rw [if_neg hid]
        rw [List.map_cons, List.mem_cons] at h
        exact ih hrest (h.resolve_left hid)

end

/-- The rows an update touched, when it keeps what it looked for. -/
theorem filter_update_self {p : ρ → Bool} {f : ρ → ρ} (h : ∀ r, p (f r) = p r) (t : List ρ) :
    (update p f t).filter p = (t.filter p).map f := by
  induction t with
  | nil => rfl
  | cons r t ih =>
      rw [update] at ih
      by_cases hp : p r <;> simp [update, hp, h, ih]

/-- An update of rows that are not selected, and are not afterwards. -/
theorem filter_update_of_outside {p q : ρ → Bool} {f : ρ → ρ}
    (h : ∀ r, p r = true → q r = false ∧ q (f r) = false) (t : List ρ) :
    (update p f t).filter q = t.filter q := by
  induction t with
  | nil => rfl
  | cons r t ih =>
      rw [update] at ih
      by_cases hp : p r
      · obtain ⟨hbefore, hafter⟩ := h r hp
        simp [update, hp, hbefore, hafter, ih]
      · by_cases hq : q r <;> simp [update, hp, hq, ih]

/-- An update leaves the rows of a disjoint selection alone. -/
theorem filter_update_of_disjoint {p q : ρ → Bool} {f : ρ → ρ} (hkeep : ∀ r, q (f r) = q r)
    (hdisj : ∀ r, p r = true → q r = true → False) (t : List ρ) :
    (update p f t).filter q = t.filter q := by
  refine filter_update_of_outside (fun r hp => ?_) t
  rw [hkeep, and_self, Bool.eq_false_iff]
  exact hdisj r hp

/-- Tables that agree on a selection agree on every narrower one. -/
theorem filter_eq_of_subset {p q : ρ → Bool} (hsub : ∀ r, q r = true → p r = true)
    {t t' : List ρ} (h : t'.filter p = t.filter p) : t'.filter q = t.filter q := by
  have hnarrow : ∀ rows : List ρ, (rows.filter p).filter q = rows.filter q := by
    intro rows
    rw [List.filter_filter]
    refine List.filter_congr fun r _ => ?_
    by_cases hq : q r = true
    · simp [hq, hsub r hq]
    · simp [hq]
  rw [← hnarrow t', h, hnarrow]

theorem filter_delete (p q : ρ → Bool) (t : List ρ) :
    (delete p t).filter q = delete p (t.filter q) := by
  unfold delete
  rw [List.filter_filter, List.filter_filter]
  exact List.filter_congr fun r _ => Bool.and_comm _ _

/-- A deletion leaves the rows of a disjoint selection alone. -/
theorem filter_delete_of_disjoint {p q : ρ → Bool}
    (hdisj : ∀ r, p r = true → q r = true → False) (t : List ρ) :
    (delete p t).filter q = t.filter q := by
  rw [filter_delete]
  refine List.filter_eq_self.mpr fun r hr => ?_
  by_contra hp
  exact hdisj r (by simpa using hp) (List.mem_filter.mp hr).2

theorem delete_sublist (p : ρ → Bool) (t : List ρ) : (delete p t).Sublist t :=
  List.filter_sublist

theorem delete_eq_self {p : ρ → Bool} {t : List ρ} (h : ∀ r ∈ t, p r = false) :
    delete p t = t :=
  List.filter_eq_self.mpr fun r hr => by simp [h r hr]

/-- A delete that looks at some of the columns only is a delete of those. -/
theorem map_delete (g : ρ → κ) (p : κ → Bool) (t : List ρ) :
    (delete (fun r => p (g r)) t).map g = delete p (t.map g) := by
  simp [delete, List.filter_map, Function.comp_def]

/-- A row of a table with a key is the one a look-up by that key finds. -/
theorem find?_key [BEq κ] [LawfulBEq κ] {key : ρ → κ} {t : List ρ} (h : (t.map key).Nodup)
    {r : ρ} (hr : r ∈ t) : t.find? (key · == key r) = some r := by
  induction t with
  | nil => simp at hr
  | cons a t ih =>
      rw [List.map_cons, List.nodup_cons] at h
      rcases List.mem_cons.mp hr with rfl | hr'
      · simp
      · have hne : key a ≠ key r := fun hc => h.1 (hc ▸ List.mem_map_of_mem hr')
        simpa [hne] using ih h.2 hr'

/-- A look-up by a column that the update of one of its values keeps. -/
theorem find?_update [DecidableEq κ] {key : ρ → κ} {k : κ} {f : ρ → ρ}
    (hf : ∀ r, key r = k → key (f r) = k) (t : List ρ) (k' : κ) :
    (update (key · == k) f t).find? (key · == k') =
      if k' = k then (t.find? (key · == k')).map f else t.find? (key · == k') := by
  induction t with
  | nil => simp [update]
  | cons r t ih =>
      have hcons : update (key · == k) f (r :: t) =
          (if key r = k then f r else r) :: update (key · == k) f t := by
        by_cases hk : key r = k <;> simp [update, hk]
      rw [hcons, List.find?_cons, List.find?_cons, ih]
      by_cases hk : key r = k
      · by_cases hk' : k' = k
        · simp [hk, hk', hf r hk]
        · have hne : (k == k') = false := by simpa using Ne.symm hk'
          simp [hk, hf r hk, hk', hne]
      · by_cases hkey : key r = k'
        · have hk' : k' ≠ k := hkey ▸ hk
          simp [hk', hkey]
        · have hne : (key r == k') = false := by simpa using hkey
          simp [hk, hne]

/-! ### Keys -/

/-- Keys that were handed out by a counter: no two rows share one, and `n` is not taken. -/
structure Numbered (key : ρ → Nat) (n : Nat) (t : List ρ) : Prop where
  nodup : (t.map key).Nodup
  lt : ∀ r ∈ t, key r < n

namespace Numbered

variable {key : ρ → Nat} {n m : Nat} {t t' : List ρ}

theorem nil : Numbered key n ([] : List ρ) := ⟨List.nodup_nil, by simp⟩

theorem mono (h : Numbered key n t) (hle : n ≤ m) : Numbered key m t :=
  ⟨h.nodup, fun r hr => Nat.lt_of_lt_of_le (h.lt r hr) hle⟩

/-- Only the column of keys matters. -/
theorem of_map_eq (h : Numbered key n t) (heq : t'.map key = t.map key) : Numbered key n t' := by
  refine ⟨heq ▸ h.nodup, fun r hr => ?_⟩
  have hmem : key r ∈ t.map key := heq ▸ List.mem_map_of_mem hr
  obtain ⟨r₀, hr₀, hkey⟩ := List.mem_map.mp hmem
  exact hkey ▸ h.lt r₀ hr₀

theorem sublist (h : Numbered key n t) (hsub : t'.Sublist t) : Numbered key n t' :=
  ⟨h.nodup.sublist (hsub.map key), fun r hr => h.lt r (hsub.subset hr)⟩

theorem insert (h : Numbered key n t) {r : ρ} (hr : key r = n) :
    Numbered key (n + 1) (t ++ [r]) := by
  constructor
  · rw [List.map_append, List.map_singleton, hr]
    refine List.Nodup.append h.nodup (List.nodup_singleton n) ?_
    intro k hk hk'
    obtain ⟨r₀, hr₀, rfl⟩ := List.mem_map.mp hk
    have := h.lt r₀ hr₀
    simp only [List.mem_singleton] at hk'
    omega
  · intro r' hr'
    rcases List.mem_append.mp hr' with hr' | hr'
    · exact Nat.lt_succ_of_lt (h.lt r' hr')
    · rw [List.mem_singleton.mp hr', hr]
      exact Nat.lt_succ_self n

/-- Two rows with one key are one row. -/
theorem eq_of_key (h : Numbered key n t) {r r' : ρ} (hr : r ∈ t) (hr' : r' ∈ t)
    (hkey : key r = key r') : r = r' :=
  List.inj_on_of_nodup_map h.nodup hr hr' hkey

end Numbered

/-! ### Row by row, where a row may fail -/

/-- A pass that got through has an answer for every row. -/
theorem forall₂_of_mapM {α β ε : Type} {f : α → Except ε β} :
    ∀ {xs : List α} {ys : List β}, xs.mapM f = .ok ys →
      List.Forall₂ (fun x y => x ∈ xs ∧ f x = .ok y) xs ys
  | [], ys, h => by
      obtain rfl : [] = ys := Except.ok.inj h
      exact .nil
  | x :: xs, ys, h => by
      rw [List.mapM_cons] at h
      cases hx : f x with
      | error e => simp [hx, bind, Except.bind] at h
      | ok y =>
          cases hxs : xs.mapM f with
          | error e => simp [hx, hxs, bind, Except.bind] at h
          | ok ys' =>
              obtain rfl : y :: ys' = ys := by
                simpa [hx, hxs, bind, Except.bind, pure, Except.pure] using h
              refine .cons ⟨by simp, hx⟩ ((forall₂_of_mapM hxs).imp fun x' y' h' => ?_)
              exact ⟨by simp [h'.1], h'.2⟩

/-- A pass that failed has failed on some row. -/
theorem exists_of_mapM_error {α β ε : Type} {f : α → Except ε β} {e : ε} :
    ∀ {xs : List α}, xs.mapM f = .error e → ∃ x ∈ xs, f x = .error e
  | [], h => absurd h (by simp [pure, Except.pure])
  | x :: xs, h => by
      rw [List.mapM_cons] at h
      cases hx : f x with
      | error e' =>
          obtain rfl : e' = e := by simpa [hx, bind, Except.bind] using h
          exact ⟨x, by simp, hx⟩
      | ok y =>
          cases hxs : xs.mapM f with
          | error e' =>
              obtain rfl : e' = e := by simpa [hx, hxs, bind, Except.bind] using h
              obtain ⟨x', hx', he⟩ := exists_of_mapM_error hxs
              exact ⟨x', by simp [hx'], he⟩
          | ok ys => simp [hx, hxs, bind, Except.bind, pure, Except.pure] at h

theorem exists_of_isOk {α ε : Type} {x : Except ε α} (h : x.isOk = true) : ∃ a, x = .ok a := by
  cases x with
  | error e => cases h
  | ok a => exact ⟨a, rfl⟩

/-- A program in two steps gets through where both of them do. -/
theorem bind_eq_ok_iff {α β ε : Type} {x : Except ε α} {f : α → Except ε β} {b : β} :
    (x >>= f) = .ok b ↔ ∃ a, x = .ok a ∧ f a = .ok b := by
  cases x with
  | error e => simp [bind, Except.bind]
  | ok a => simp [bind, Except.bind]

/-- A loop ends where every one of its steps does. -/
theorem forM_eq_ok_iff {α ε : Type} {f : α → Except ε Unit} {xs : List α} :
    xs.forM f = .ok () ↔ ∀ x ∈ xs, f x = .ok () := by
  induction xs with
  | nil => exact iff_of_true rfl (by simp)
  | cons x xs ih =>
      show (f x >>= fun _ => xs.forM f) = .ok () ↔ _
      rw [bind_eq_ok_iff, List.forall_mem_cons, ← ih]
      constructor
      · rintro ⟨_, hx, hxs⟩
        exact ⟨hx, hxs⟩
      · rintro ⟨hx, hxs⟩
        exact ⟨(), hx, hxs⟩

theorem forall₂_of_mapM_some {α β : Type} {f : α → Option β} :
    ∀ {xs : List α} {ys : List β}, xs.mapM f = some ys →
      List.Forall₂ (fun x y => f x = some y) xs ys
  | [], ys, h => by
      obtain rfl : [] = ys := Option.some.inj h
      exact .nil
  | x :: xs, ys, h => by
      rw [List.mapM_cons] at h
      cases hx : f x with
      | none => simp [hx] at h
      | some y =>
          cases hxs : xs.mapM f with
          | none => simp [hx, hxs] at h
          | some ys' =>
              obtain rfl : y :: ys' = ys := by simpa [hx, hxs] using h
              exact .cons hx (forall₂_of_mapM_some hxs)

/-- A computation that goes through on every row goes through on the table. -/
theorem exists_mapM_ok {α β ε : Type} {f : α → Except ε β} :
    ∀ xs : List α, (∀ x ∈ xs, ∃ y, f x = .ok y) → ∃ ys, xs.mapM f = .ok ys
  | [], _ => ⟨[], rfl⟩
  | x :: xs, h => by
      obtain ⟨y, hy⟩ := h x (by simp)
      obtain ⟨ys, hys⟩ := exists_mapM_ok xs fun x' hx' => h x' (by simp [hx'])
      exact ⟨y :: ys, by simp [List.mapM_cons, hy, hys, bind, Except.bind, pure, Except.pure]⟩

/-- A pass whose every answer is known. -/
theorem mapM_eq_ok_map {α β ε : Type} {f : α → Except ε β} {g : α → β} {xs : List α}
    (h : ∀ x ∈ xs, f x = .ok (g x)) : xs.mapM f = .ok (xs.map g) := by
  induction xs with
  | nil => rfl
  | cons x xs ih =>
      rw [List.mapM_cons, h x (by simp), ih fun x' hx' => h x' (by simp [hx'])]
      rfl

/-- A pass whose answers are known to be of a kind that goes with another list. -/
theorem exists_mapM_of_forall₂ {α β γ ε : Type} {f : α → Except ε β} {R : γ → β → Prop}
    {xs : List α} {zs : List γ} (h : List.Forall₂ (fun x z => ∃ y, f x = .ok y ∧ R z y) xs zs) :
    ∃ ys, xs.mapM f = .ok ys ∧ List.Forall₂ R zs ys := by
  induction h with
  | nil => exact ⟨[], rfl, .nil⟩
  | cons hxz _ ih =>
      obtain ⟨y, hy, hR⟩ := hxz
      obtain ⟨ys, hys, hall⟩ := ih
      refine ⟨y :: ys, ?_, .cons hR hall⟩
      simp [List.mapM_cons, hy, hys, bind, Except.bind, pure, Except.pure]

/-- What is related to two tables, one after the other, is two tables. -/
theorem forall₂_append {α β : Type*} {R : α → β → Prop} {xs xs' : List α} {ys : List β}
    (h : List.Forall₂ R (xs ++ xs') ys) :
    ∃ ys₁ ys₂, List.Forall₂ R xs ys₁ ∧ List.Forall₂ R xs' ys₂ ∧ ys = ys₁ ++ ys₂ := by
  refine ⟨ys.take xs.length, ys.drop xs.length, ?_, ?_, by simp⟩
  · have htake := List.forall₂_take xs.length h
    simpa using htake
  · have hdrop := List.forall₂_drop xs.length h
    simpa using hdrop

/-- The rows that are related are rows of the first table. -/
theorem forall₂_mem {α β : Type*} {R : α → β → Prop} {xs : List α} {ys : List β}
    (h : List.Forall₂ R xs ys) : List.Forall₂ (fun x y => x ∈ xs ∧ R x y) xs ys := by
  induction h with
  | nil => exact .nil
  | cons hxy _ ih => exact .cons ⟨by simp, hxy⟩ (ih.imp fun x y h => ⟨by simp [h.1], h.2⟩)

theorem exists_of_forall₂ {α β : Type*} {R : α → β → Prop} {xs : List α} {ys : List β}
    (h : List.Forall₂ R xs ys) {y : β} (hy : y ∈ ys) : ∃ x ∈ xs, R x y := by
  obtain ⟨i, hi, rfl⟩ := List.getElem_of_mem hy
  have hi' : i < xs.length := by rw [h.length_eq]; exact hi
  exact ⟨xs[i], List.getElem_mem hi', h.get hi' hi⟩

theorem exists_of_forall₂_left {α β : Type*} {R : α → β → Prop} {xs : List α} {ys : List β}
    (h : List.Forall₂ R xs ys) {x : α} (hx : x ∈ xs) : ∃ y ∈ ys, R x y :=
  exists_of_forall₂ h.flip hx

/-- A selection whose rows have stayed, and that no other row has come into. -/
theorem filter_of_forall₂ {q : ρ → Bool} {t t' : List ρ}
    (h : List.Forall₂ (fun r r' => q r' = q r ∧ (q r = true → r' = r)) t t') :
    t'.filter q = t.filter q := by
  induction h with
  | nil => rfl
  | cons hr _ ih =>
      rename_i r r' t t' _
      by_cases hq : q r = true
      · rw [hr.2 hq, List.filter_cons_of_pos hq, List.filter_cons_of_pos hq, ih]
      · rw [List.filter_cons_of_neg hq, List.filter_cons_of_neg (hr.1 ▸ hq), ih]

/-! ### How a table evolves -/

/-- Rows of `t` may be deleted, move by `R`, and be joined by `New` ones. -/
def Evolves (R : ρ → ρ → Prop) (New : ρ → Prop) (t t' : List ρ) : Prop :=
  ∃ kept moved added, kept.Sublist t ∧ List.Forall₂ R kept moved ∧ t' = moved ++ added ∧
    ∀ r ∈ added, New r

/-- The same without deletions. -/
def Grows (R : ρ → ρ → Prop) (New : ρ → Prop) (t t' : List ρ) : Prop :=
  ∃ moved added, List.Forall₂ R t moved ∧ t' = moved ++ added ∧ ∀ r ∈ added, New r

variable {R : ρ → ρ → Prop} {New : ρ → Prop}

theorem forall₂_refl (hrefl : ∀ r, R r r) : ∀ t : List ρ, List.Forall₂ R t t
  | [] => .nil
  | r :: t => .cons (hrefl r) (forall₂_refl hrefl t)

private theorem forall₂_trans (htrans : ∀ {a b c}, R a b → R b c → R a c) :
    ∀ {a b c : List ρ}, List.Forall₂ R a b → List.Forall₂ R b c → List.Forall₂ R a c
  | _, _, _, .nil, .nil => .nil
  | _, _, _, .cons h t, .cons h' t' => .cons (htrans h h') (forall₂_trans htrans t t')

theorem forall₂_update {p : ρ → Bool} {f : ρ → ρ} (hrefl : ∀ r, R r r) :
    ∀ {t : List ρ}, (∀ r ∈ t, p r = true → R r (f r)) → List.Forall₂ R t (update p f t)
  | [], _ => .nil
  | r :: t, h => by
      refine .cons ?_ (forall₂_update hrefl fun r hr => h r (by simp [hr]))
      by_cases hp : p r
      · simpa [hp] using h r (by simp) hp
      · simpa [hp] using hrefl r

/-- Rows that count afterwards have counted before. -/
theorem countP_le_of_forall₂ {q : ρ → Bool} (hR : ∀ {r r'}, R r r' → q r' = true → q r = true)
    {t t' : List ρ} (h : List.Forall₂ R t t') : t'.countP q ≤ t.countP q := by
  induction h with
  | nil => exact Nat.le_refl _
  | @cons r r' t t' hr _ ih =>
      rw [List.countP_cons, List.countP_cons]
      by_cases hq : q r' = true
      · rw [if_pos hq, if_pos (hR hr hq)]
        omega
      · rw [if_neg hq]
        omega

/-- A sublist of the right side of a `Forall₂` is matched by a sublist of the left. -/
private theorem forall₂_sublist {t moved kept : List ρ} (h : List.Forall₂ R t moved)
    (hs : kept.Sublist moved) : ∃ kept₀, kept₀.Sublist t ∧ List.Forall₂ R kept₀ kept := by
  induction hs generalizing t with
  | slnil => cases h; exact ⟨[], by simp, .nil⟩
  | cons b _ ih =>
      cases h with
      | cons hb ht =>
          obtain ⟨kept₀, hsub, hall⟩ := ih ht
          exact ⟨kept₀, hsub.cons _, hall⟩
  | cons_cons b _ ih =>
      cases h with
      | cons hb ht =>
          obtain ⟨kept₀, hsub, hall⟩ := ih ht
          exact ⟨_, hsub.cons_cons _, .cons hb hall⟩

namespace Grows

theorem refl (hrefl : ∀ r, R r r) (t : List ρ) : Grows R New t t :=
  ⟨t, [], forall₂_refl hrefl t, by simp, by simp⟩

theorem update {p : ρ → Bool} {f : ρ → ρ} {t : List ρ} (hrefl : ∀ r, R r r)
    (h : ∀ r ∈ t, p r = true → R r (f r)) : Grows R New t (Table.update p f t) :=
  ⟨_, [], forall₂_update hrefl h, by simp, by simp⟩

theorem insert {t : List ρ} {r : ρ} (hrefl : ∀ r, R r r) (h : New r) :
    Grows R New t (t ++ [r]) :=
  ⟨t, [r], forall₂_refl hrefl t, rfl, by simpa using h⟩

/-- Statements compose, provided a new row that moves on is still a new row. -/
theorem trans {a b c : List ρ} (htrans : ∀ {x y z}, R x y → R y z → R x z)
    (hnew : ∀ {x y}, New x → R x y → New y) (h : Grows R New a b) (h' : Grows R New b c) :
    Grows R New a c := by
  obtain ⟨moved, added, hall, rfl, hadd⟩ := h
  obtain ⟨moved', added', hall', rfl, hadd'⟩ := h'
  obtain ⟨m₁, m₂, h₁, h₂, rfl⟩ := forall₂_append hall'
  refine ⟨m₁, m₂ ++ added', forall₂_trans (R := R) htrans hall h₁, by simp, ?_⟩
  intro r hr
  rcases List.mem_append.mp hr with hr | hr
  · obtain ⟨i, hi, rfl⟩ := List.getElem_of_mem hr
    have hi' : i < added.length := by rw [h₂.length_eq]; exact hi
    exact hnew (hadd _ (List.getElem_mem hi')) (h₂.get hi' hi)
  · exact hadd' r hr

/-- Every row is an old one that moved, or new. -/
theorem mem {t t' : List ρ} (h : Grows R New t t') {r' : ρ} (hr : r' ∈ t') :
    (∃ r ∈ t, R r r') ∨ New r' := by
  obtain ⟨moved, added, hall, rfl, hadd⟩ := h
  rcases List.mem_append.mp hr with hr | hr
  · obtain ⟨i, hi, rfl⟩ := List.getElem_of_mem hr
    have hi' : i < t.length := by rw [hall.length_eq]; exact hi
    exact Or.inl ⟨_, List.getElem_mem hi', hall.get hi' hi⟩
  · exact Or.inr (hadd r' hr)

/-- No row is lost. -/
theorem mem_of_mem {t t' : List ρ} (h : Grows R New t t') {r : ρ} (hr : r ∈ t) :
    ∃ r' ∈ t', R r r' := by
  obtain ⟨moved, added, hall, rfl, -⟩ := h
  obtain ⟨i, hi, rfl⟩ := List.getElem_of_mem hr
  have hi' : i < moved.length := by rw [← hall.length_eq]; exact hi
  exact ⟨moved[i], by simp, hall.get hi hi'⟩

theorem imp {R' : ρ → ρ → Prop} {New' : ρ → Prop} (hR : ∀ {x y}, R x y → R' x y)
    (hN : ∀ {x}, New x → New' x) {t t' : List ρ} (h : Grows R New t t') :
    Grows R' New' t t' := by
  obtain ⟨moved, added, hall, rfl, hadd⟩ := h
  exact ⟨moved, added, hall.imp fun _ _ => hR, rfl, fun r hr => hN (hadd r hr)⟩

end Grows

namespace Evolves

theorem delete (hrefl : ∀ r, R r r) (p : ρ → Bool) (t : List ρ) :
    Evolves R New t (Table.delete p t) :=
  ⟨_, _, [], delete_sublist p t, forall₂_refl hrefl _, by simp, by simp⟩

theorem trans {a b c : List ρ} (htrans : ∀ {x y z}, R x y → R y z → R x z)
    (hnew : ∀ {x y}, New x → R x y → New y) (h : Evolves R New a b) (h' : Evolves R New b c) :
    Evolves R New a c := by
  obtain ⟨kept, moved, added, hsub, hall, rfl, hadd⟩ := h
  obtain ⟨kept', moved', added', hsub', hall', rfl, hadd'⟩ := h'
  obtain ⟨k₁, k₂, rfl, hk₁, hk₂⟩ := List.sublist_append_iff.mp hsub'
  obtain ⟨k₀, hk₀, hall₀⟩ := forall₂_sublist hall hk₁
  have h₁ : List.Forall₂ R k₁ (moved'.take k₁.length) := by
    simpa using List.forall₂_take k₁.length hall'
  have h₂ : List.Forall₂ R k₂ (moved'.drop k₁.length) := by
    simpa using List.forall₂_drop k₁.length hall'
  refine ⟨k₀, moved'.take k₁.length, moved'.drop k₁.length ++ added', hk₀.trans hsub,
    forall₂_trans (R := R) htrans hall₀ h₁, by rw [← List.append_assoc, List.take_append_drop], ?_⟩
  intro r hr
  rcases List.mem_append.mp hr with hr | hr
  · obtain ⟨i, hi, rfl⟩ := List.getElem_of_mem hr
    have hi' : i < k₂.length := by rw [h₂.length_eq]; exact hi
    exact hnew (hadd _ (hk₂.subset (List.getElem_mem hi'))) (h₂.get hi' hi)
  · exact hadd' r hr

theorem mem {t t' : List ρ} (h : Evolves R New t t') {r' : ρ} (hr : r' ∈ t') :
    (∃ r ∈ t, R r r') ∨ New r' := by
  obtain ⟨kept, moved, added, hsub, hall, rfl, hadd⟩ := h
  rcases Grows.mem ⟨moved, added, hall, rfl, hadd⟩ hr with ⟨r, hr₀, hR⟩ | hN
  · exact Or.inl ⟨r, hsub.subset hr₀, hR⟩
  · exact Or.inr hN

end Evolves

end Table
