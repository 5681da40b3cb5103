/-
One action for each row of a selection, where no two rows have to do with each other.

A view says what a state holds under a key.  An action is confined to a key when it changes
nothing under any other, and its result and what it leaves under its own depend on what was
there and on nothing else.  Actions that are confined to keys of their own do not see each
other: a run over the selection has the results, and leaves under each key what is there,
that the action alone has and leaves in the first state.  Nothing here knows what the states
are.
-/
import Mathlib.Data.List.Basic
import Mathlib.Data.List.Nodup

namespace Independent

variable {σ κ β α ρ : Type*}

/-- The action has to do with the key `k` only. -/
structure Confined (inv : σ → Prop) (view : σ → κ → β) (k : κ) (act : σ → α × σ) : Prop where
  keeps : ∀ s, inv s → inv (act s).2
  elsewhere : ∀ s, inv s → ∀ k', k' ≠ k → view (act s).2 k' = view s k'
  result : ∀ s s', inv s → inv s' → view s k = view s' k → (act s).1 = (act s').1
  here : ∀ s s', inv s → inv s' → view s k = view s' k → view (act s).2 k = view (act s').2 k

namespace Confined

variable {inv : σ → Prop} {view : σ → κ → β} {k : κ}

/-- What the action does is a function of the view. -/
theorem of_view {act : σ → α × σ} (F : β → β) (G : β → α)
    (keeps : ∀ s, inv s → inv (act s).2)
    (elsewhere : ∀ s, inv s → ∀ k', k' ≠ k → view (act s).2 k' = view s k')
    (result : ∀ s, inv s → (act s).1 = G (view s k))
    (here : ∀ s, inv s → view (act s).2 k = F (view s k)) : Confined inv view k act where
  keeps := keeps
  elsewhere := elsewhere
  result s s' hs hs' h := by rw [result s hs, result s' hs', h]
  here s s' hs hs' h := by rw [here s hs, here s' hs', h]

/-- An action that does nothing. -/
theorem still (a : α) : Confined inv view k fun s => (a, s) where
  keeps _ hs := hs
  elsewhere _ _ _ _ := rfl
  result _ _ _ _ _ := rfl
  here _ _ _ _ h := h

/-- One action and then another, which the result of the first decides on. -/
theorem bind {act : σ → α × σ} (hact : Confined inv view k act) (next : α → σ → α × σ)
    (hnext : ∀ a, Confined inv view k (next a)) :
    Confined inv view k fun s => next (act s).1 (act s).2 where
  keeps s hs := (hnext _).keeps _ (hact.keeps s hs)
  elsewhere s hs k' hk' := by
    rw [(hnext _).elsewhere _ (hact.keeps s hs) k' hk', hact.elsewhere s hs k' hk']
  result s s' hs hs' h := by
    rw [hact.result s s' hs hs' h]
    exact (hnext _).result _ _ (hact.keeps s hs) (hact.keeps s' hs') (hact.here s s' hs hs' h)
  here s s' hs hs' h := by
    rw [hact.result s s' hs hs' h]
    exact (hnext _).here _ _ (hact.keeps s hs) (hact.keeps s' hs') (hact.here s s' hs hs' h)

/-- An action that looks up something under the key first. -/
theorem reading {γ : Type*} {act : γ → σ → α × σ} (v : σ → γ) (V : β → γ)
    (hv : ∀ s, v s = V (view s k)) (hact : ∀ c, Confined inv view k (act c)) :
    Confined inv view k fun s => act (v s) s where
  keeps s hs := (hact _).keeps s hs
  elsewhere s hs k' hk' := (hact _).elsewhere s hs k' hk'
  result s s' hs hs' h := by
    rw [show v s = v s' by rw [hv, hv, h]]
    exact (hact _).result s s' hs hs' h
  here s s' hs hs' h := by
    rw [show v s = v s' by rw [hv, hv, h]]
    exact (hact _).here s s' hs hs' h

end Confined

/-- The action on one row after the other, whatever comes of it. -/
def runAll (act : ρ → σ → α × σ) : List ρ → σ → List α × σ
  | [], s => ([], s)
  | r :: rs, s =>
      ((act r s).1 :: (runAll act rs (act r s).2).1, (runAll act rs (act r s).2).2)

variable {inv : σ → Prop} {view : σ → κ → β} (key : ρ → κ) {act : ρ → σ → α × σ} {rs : List ρ}

/-- The state is the fold of the actions. -/
theorem runAll_snd (act : ρ → σ → α × σ) (rs : List ρ) (s : σ) :
    (runAll act rs s).2 = rs.foldl (fun s r => (act r s).2) s := by
  induction rs generalizing s with
  | nil => rfl
  | cons r rs ih => exact ih _

/-- A run does not touch what belongs to no row of it. -/
theorem view_runAll_of_notMem (hact : ∀ r ∈ rs, Confined inv view (key r) (act r)) {s : σ}
    (hs : inv s) {k : κ} (hk : ∀ r ∈ rs, key r ≠ k) : view (runAll act rs s).2 k = view s k := by
  induction rs generalizing s with
  | nil => rfl
  | cons r rs ih =>
      have hr := hact r (by simp)
      have hrest := ih (fun r' hr' => hact r' (by simp [hr'])) (hr.keeps s hs)
        fun r' hr' => hk r' (by simp [hr'])
      exact hrest.trans (hr.elsewhere s hs k (hk r (by simp)).symm)

/-- What a run leaves under the key of a row is what the action on the row alone leaves. -/
theorem view_runAll_of_mem (hact : ∀ r ∈ rs, Confined inv view (key r) (act r))
    (hkeys : (rs.map key).Nodup) {s : σ} (hs : inv s) {r : ρ} (hr : r ∈ rs) :
    view (runAll act rs s).2 (key r) = view (act r s).2 (key r) := by
  induction rs generalizing s with
  | nil => simp at hr
  | cons r₀ rs ih =>
      have hr₀ := hact r₀ (by simp)
      have hrest : ∀ r' ∈ rs, Confined inv view (key r') (act r') :=
        fun r' hr' => hact r' (by simp [hr'])
      rw [List.map_cons, List.nodup_cons] at hkeys
      have hne : ∀ r' ∈ rs, key r' ≠ key r₀ := by
        intro r' hr' heq
        exact hkeys.1 (heq ▸ List.mem_map_of_mem hr')
      rcases List.mem_cons.mp hr with rfl | hr'
      · exact view_runAll_of_notMem key hrest (hr₀.keeps s hs) hne
      · -- The action on the first row has left the view under this key as it was.
        have hsame := hr₀.elsewhere s hs (key r) (hne r hr')
        exact (ih hrest hkeys.2 (hr₀.keeps s hs) hr').trans
          ((hrest r hr').here _ s (hr₀.keeps s hs) hs hsame)

/-- Its results are those of the actions alone. -/
theorem runAll_fst (hact : ∀ r ∈ rs, Confined inv view (key r) (act r))
    (hkeys : (rs.map key).Nodup) {s : σ} (hs : inv s) :
    (runAll act rs s).1 = rs.map fun r => (act r s).1 := by
  induction rs generalizing s with
  | nil => rfl
  | cons r₀ rs ih =>
      have hr₀ := hact r₀ (by simp)
      have hrest : ∀ r' ∈ rs, Confined inv view (key r') (act r') :=
        fun r' hr' => hact r' (by simp [hr'])
      rw [List.map_cons, List.nodup_cons] at hkeys
      show (act r₀ s).1 :: (runAll act rs (act r₀ s).2).1 = _
      rw [ih hrest hkeys.2 (hr₀.keeps s hs), List.map_cons]
      refine congrArg _ (List.map_congr_left fun r hr => ?_)
      have hne : key r ≠ key r₀ := fun heq => hkeys.1 (heq ▸ List.mem_map_of_mem hr)
      exact (hrest r hr).result _ s (hr₀.keeps s hs) hs (hr₀.elsewhere s hs (key r) hne)

end Independent
