/-
Two programs that do the same as far as one can see.

A view is what is looked at of a state, and the rest is hidden by it.  Two programs mirror each
other if runs that nothing disturbs, from states that look the same, end alike and in states
that look the same.  They need not take the same number of steps: what a program does behind
the view may be anything.
-/
import Mathlib.Data.List.Forall2
import Aurweb.Lib.Txn

namespace Txn

open Prog

variable {σ τ ε α β γ : Type} (view : σ → τ)

/-- Alike in what is stored and in what is being worked on. -/
def Alike (c c' : Conn σ) : Prop :=
  view c.committed = view c'.committed ∧ view c.working = view c'.working

def Mirrors (p q : Prog σ ε α) : Prop :=
  ∀ c c', Alike view c c' →
    (p (fun _ => none) c).1 = (q (fun _ => none) c').1 ∧
      Alike view (p (fun _ => none) c).2 (q (fun _ => none) c').2

/-- A program that gets through without anything to be seen of it. -/
def Hidden (p : Prog σ ε Unit) : Prop :=
  ∀ c, (p (fun _ => none) c).1 = .ok () ∧ Alike view (p (fun _ => none) c).2 c

variable {view}

namespace Hidden

theorem pure : Hidden view (Pure.pure () : Prog σ ε Unit) := fun _ => ⟨rfl, rfl, rfl⟩

theorem bind {p : Prog σ ε Unit} {f : Unit → Prog σ ε Unit} (hp : Hidden view p)
    (hf : Hidden view (f ())) : Hidden view (p >>= f) := by
  intro c
  obtain ⟨hok, hcommitted, hworking⟩ := hp c
  have hrun : p (fun _ => none) c = (.ok (), (p (fun _ => none) c).2) := Prod.ext hok rfl
  rw [bind_apply, hrun]
  obtain ⟨hok', hcommitted', hworking'⟩ := hf (p (fun _ => none) c).2
  exact ⟨hok', hcommitted'.trans hcommitted, hworking'.trans hworking⟩

theorem write {f : σ → σ} (h : ∀ s, view (f s) = view s) :
    Hidden view (Prog.write f : Prog σ ε Unit) := fun c => ⟨rfl, rfl, h c.working⟩

theorem external : Hidden view (Prog.external : Prog σ ε Unit) := fun _ => ⟨rfl, rfl, rfl⟩

theorem forEach {body : β → Prog σ ε Unit} {xs : List β} (h : ∀ x ∈ xs, Hidden view (body x)) :
    Hidden view (Prog.forEach xs body) := by
  induction xs with
  | nil => exact pure
  | cons x xs ih =>
      rw [forEach_cons]
      exact bind (h x (by simp)) (ih fun y hy => h y (by simp [hy]))

theorem mirrors {p q : Prog σ ε Unit} (hp : Hidden view p) (hq : Hidden view q) :
    Mirrors view p q := by
  intro c c' h
  obtain ⟨hok, hcommitted, hworking⟩ := hp c
  obtain ⟨hok', hcommitted', hworking'⟩ := hq c'
  refine ⟨hok.trans hok'.symm, ?_, ?_⟩
  · rw [hcommitted, hcommitted', h.1]
  · rw [hworking, hworking', h.2]

end Hidden

namespace Mirrors

theorem pure (a : α) : Mirrors view (Pure.pure a : Prog σ ε α) (Pure.pure a) :=
  fun _ _ h => ⟨rfl, h⟩

theorem raise (e : ε) : Mirrors view (Prog.raise e : Prog σ ε α) (Prog.raise e) :=
  fun _ _ h => ⟨rfl, h⟩

theorem bind {p q : Prog σ ε α} {f g : α → Prog σ ε β} (hp : Mirrors view p q)
    (hf : ∀ a, Mirrors view (f a) (g a)) : Mirrors view (p >>= f) (q >>= g) := by
  intro c c' h
  obtain ⟨hout, hstep⟩ := hp c c' h
  rw [bind_apply, bind_apply]
  cases hr : p (fun _ => none) c with
  | mk r c₁ =>
      cases hr' : q (fun _ => none) c' with
      | mk r' c₁' =>
          rw [hr, hr'] at hout hstep
          obtain rfl : r = r' := hout
          cases r with
          | ok a => exact hf a c₁ c₁' hstep
          | error e => exact ⟨rfl, hstep⟩

/-- A statement is alike on both sides if what it answers, and how its outcome looks, can be
told from the view. -/
theorem stmt {f g : σ → Except ε (α × σ)}
    (h : ∀ s s', view s = view s' →
      (f s).map (Prod.map id view) = (g s').map (Prod.map id view)) :
    Mirrors view (Prog.stmt f) (Prog.stmt g) := by
  intro c c' hc
  have hstep := h c.working c'.working hc.2
  unfold Prog.stmt
  cases hf : f c.working with
  | error e =>
      cases hg : g c'.working with
      | error e' =>
          rw [hf, hg] at hstep
          obtain rfl : e = e' := Except.error.inj hstep
          exact ⟨rfl, hc⟩
      | ok r =>
          rw [hf, hg] at hstep
          cases hstep
  | ok r =>
      cases hg : g c'.working with
      | error e' =>
          rw [hf, hg] at hstep
          cases hstep
      | ok r' =>
          rw [hf, hg] at hstep
          obtain ⟨hout, hview⟩ := Prod.mk.inj (Except.ok.inj hstep)
          refine ⟨?_, hc.1, hview⟩
          show Except.ok r.1 = Except.ok r'.1
          rw [show r.1 = r'.1 from hout]

theorem constrained {violated : σ → Bool} {e : ε} {f g : σ → α × σ} {V : τ → Bool}
    {F : τ → α × τ} (hv : ∀ s, violated s = V (view s))
    (hf : ∀ s, Prod.map id view (f s) = F (view s))
    (hg : ∀ s, Prod.map id view (g s) = F (view s)) :
    Mirrors view (Prog.constrained violated e f) (Prog.constrained violated e g) := by
  refine stmt fun s s' hs => ?_
  rw [hv s, hv s', hs]
  cases V (view s') with
  | true => rfl
  | false =>
      show Except.ok (Prod.map id view (f s)) = Except.ok (Prod.map id view (g s'))
      rw [hf, hg, hs]

theorem query {f : σ → α} {F : τ → α} (hf : ∀ s, f s = F (view s)) :
    Mirrors view (Prog.query f : Prog σ ε α) (Prog.query f) := by
  refine stmt fun s s' hs => ?_
  show Except.ok (f s, view s) = Except.ok (f s', view s')
  rw [hf s, hf s', hs]

theorem write {f : σ → σ} {F : τ → τ} (hf : ∀ s, view (f s) = F (view s)) :
    Mirrors view (Prog.write f : Prog σ ε Unit) (Prog.write f) := by
  refine stmt fun s s' hs => ?_
  show Except.ok ((), view (f s)) = Except.ok ((), view (f s'))
  rw [hf s, hf s', hs]

theorem external : Mirrors view (Prog.external : Prog σ ε Unit) Prog.external :=
  Hidden.external.mirrors Hidden.external

theorem commit : Mirrors view (Prog.commit : Prog σ ε Unit) Prog.commit :=
  fun _ _ h => ⟨rfl, h.2, h.2⟩

theorem ofExcept (r : Except ε α) :
    Mirrors view (Prog.ofExcept r : Prog σ ε α) (Prog.ofExcept r) := by
  cases r with
  | ok a => exact pure a
  | error e => exact raise e

theorem when {b : Bool} {p q : Prog σ ε Unit} (hp : Mirrors view p q) :
    Mirrors view (Prog.when b p) (Prog.when b q) := by
  cases b with
  | true => exact hp
  | false => exact pure ()

/-- The loop rule, for loops over lists that correspond. -/
theorem forEach {body : β → Prog σ ε Unit} {body' : γ → Prog σ ε Unit} {xs : List β}
    {ys : List γ} (h : List.Forall₂ (fun x y => Mirrors view (body x) (body' y)) xs ys) :
    Mirrors view (Prog.forEach xs body) (Prog.forEach ys body') := by
  induction h with
  | nil => exact pure ()
  | cons hxy _ ih =>
      rw [forEach_cons, forEach_cons]
      exact bind hxy fun _ => ih

/-- The loop rule, for one list. -/
theorem forEach_self {body : β → Prog σ ε Unit} {xs : List β}
    (h : ∀ x ∈ xs, Mirrors view (body x) (body x)) :
    Mirrors view (Prog.forEach xs body) (Prog.forEach xs body) :=
  forEach (List.forall₂_same.mpr h)

theorem run {p q : Prog σ ε α} (h : Mirrors view p q) (s : σ) :
    (p.run (fun _ => none) s).1 = (q.run (fun _ => none) s).1 ∧
      view (p.run (fun _ => none) s).2 = view (q.run (fun _ => none) s).2 := by
  obtain ⟨hout, hcommitted, -⟩ := h ⟨s, s, 0⟩ ⟨s, s, 0⟩ ⟨rfl, rfl⟩
  exact ⟨hout, hcommitted⟩

end Mirrors

end Txn
