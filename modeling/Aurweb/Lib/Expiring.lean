/-
A store of keys that expire.

A key that was set to expire at some time is there until just before it, and gone from then
on.  Nothing removes it: reading looks at the clock.  What is known of a key is therefore
`HeldUntil`, which outlives every operation on other keys, or `GoneAt`, which the passing of
time can only confirm.
-/
import Mathlib.Logic.Function.Basic

namespace Expiring

variable {κ ν : Type*}

structure Entry (ν : Type*) where
  value : ν
  expires : Option Int
  deriving DecidableEq, Repr

def Entry.alive (e : Entry ν) (now : Int) : Bool :=
  match e.expires with
  | none => true
  | some t => decide (now < t)

abbrev Keys (κ ν : Type*) := κ → Option (Entry ν)

def empty : Keys κ ν := fun _ => none

/-- The entry of a key that is there. -/
def entry (s : Keys κ ν) (k : κ) (now : Int) : Option (Entry ν) := (s k).filter (·.alive now)

def get (s : Keys κ ν) (k : κ) (now : Int) : Option ν := (entry s k now).map (·.value)

/-- The key has this value until `t`. -/
def HeldUntil (s : Keys κ ν) (k : κ) (v : ν) (t : Int) : Prop := s k = some ⟨v, some t⟩

/-- The key is not there, and will not be without being set. -/
def GoneAt (s : Keys κ ν) (k : κ) (now : Int) : Prop := ∀ e, s k = some e → e.alive now = false

variable {s : Keys κ ν} {k k' : κ} {v : ν} {t now now' : Int}

/-! ### Reading -/

theorem HeldUntil.entry (h : HeldUntil s k v t) (hlt : now < t) :
    entry s k now = some ⟨v, some t⟩ := by
  unfold Expiring.entry
  rw [show s k = _ from h]
  simp [Entry.alive, hlt]

theorem HeldUntil.get (h : HeldUntil s k v t) (hlt : now < t) : get s k now = some v := by
  rw [Expiring.get, h.entry hlt]
  rfl

theorem HeldUntil.gone (h : HeldUntil s k v t) (hle : t ≤ now) : GoneAt s k now := by
  intro e he
  rw [show s k = _ from h] at he
  rw [← Option.some.inj he]
  simpa [Entry.alive] using hle

theorem GoneAt.entry (h : GoneAt s k now) : entry s k now = none := by
  unfold Expiring.entry
  rw [Option.filter_eq_none_iff]
  intro e he
  rw [h e he]
  exact Bool.false_ne_true

theorem GoneAt.get (h : GoneAt s k now) : get s k now = none := by
  rw [Expiring.get, h.entry]
  rfl

theorem GoneAt.later (h : GoneAt s k now) (hle : now ≤ now') : GoneAt s k now' := by
  intro e he
  have hnow := h e he
  unfold Entry.alive at hnow ⊢
  split at hnow
  · exact hnow
  · rename_i t _
    simp only [decide_eq_false_iff_not, Int.not_lt] at hnow ⊢
    omega

theorem goneAt_empty : GoneAt (empty : Keys κ ν) k now := by
  intro e he
  cases he

/-! ### Writing -/

variable [DecidableEq κ]

/-- A key that is set does not expire. -/
def set (s : Keys κ ν) (k : κ) (v : ν) : Keys κ ν := Function.update s k (some ⟨v, none⟩)

/-- Replace the value of a key that is there, and leave its time alone. -/
def modify (s : Keys κ ν) (k : κ) (f : ν → ν) (now : Int) : Keys κ ν :=
  match entry s k now with
  | none => s
  | some e => Function.update s k (some { e with value := f e.value })

/-- Let a key that is there expire, `length` from now. -/
def expire (s : Keys κ ν) (k : κ) (length now : Int) : Keys κ ν :=
  match entry s k now with
  | none => s
  | some e => Function.update s k (some { e with expires := some (now + length) })

/-- What `set` and `expire` leave of a key, together. -/
theorem expire_set (s : Keys κ ν) (k : κ) (v : ν) (length now : Int) :
    expire (set s k v) k length now =
      Function.update s k (some ⟨v, some (now + length)⟩) := by
  have hset : entry (set s k v) k now = some ⟨v, none⟩ := by
    simp [Expiring.entry, set, Entry.alive]
  unfold expire
  rw [hset]
  simp only [set, Function.update_idem]

theorem expire_apply (s : Keys κ ν) (k : κ) (length now : Int) (k' : κ) :
    expire s k length now k' =
      if k' = k then
        (s k).map fun e => if e.alive now then { e with expires := some (now + length) } else e
      else s k' := by
  unfold expire entry
  cases hk : s k with
  | none =>
      by_cases hsame : k' = k
      · simp [hsame, hk]
      · simp [hsame]
  | some e =>
      by_cases hsame : k' = k
      · by_cases halive : e.alive now <;> simp [hsame, hk, Option.filter, halive]
      · by_cases halive : e.alive now <;> simp [hsame, Option.filter, halive]

omit [DecidableEq κ] in
/-- A key that is there was set and has not expired. -/
theorem exists_of_get (h : get s k now = some v) :
    ∃ e, s k = some e ∧ e.alive now = true ∧ e.value = v := by
  obtain ⟨e, he, hv⟩ := Option.map_eq_some_iff.mp h
  obtain ⟨hs, halive⟩ := Option.filter_eq_some_iff.mp he
  exact ⟨e, hs, halive, hv⟩

theorem HeldUntil.modify (h : HeldUntil s k v t) (hlt : now < t) (f : ν → ν) :
    modify s k f now = Function.update s k (some ⟨f v, some t⟩) := by
  unfold Expiring.modify
  rw [h.entry hlt]

theorem heldUntil_update (s : Keys κ ν) (k : κ) (v : ν) (t : Int) :
    HeldUntil (Function.update s k (some ⟨v, some t⟩)) k v t :=
  Function.update_self ..

theorem HeldUntil.update (h : HeldUntil s k v t) (hne : k ≠ k') (e : Option (Entry ν)) :
    HeldUntil (Function.update s k' e) k v t :=
  (Function.update_of_ne hne ..).trans h

theorem GoneAt.update (h : GoneAt s k now) (hne : k ≠ k') (e : Option (Entry ν)) :
    GoneAt (Function.update s k' e) k now := by
  intro e' he'
  rw [Function.update_of_ne hne] at he'
  exact h e' he'

end Expiring
