/-
Runs of a system that takes one event after another.

A system is a state type, an event type and a total step function; a run is a
list of events.  Everything the development says about a whole run comes from one
of the rules below: what holds in every state a run visits, what holds there
provided every event meets a guard, and what relates the first state of a run to
its last.  Nothing here knows what the states are.
-/
import Mathlib.Data.List.Basic

namespace Run

variable {S E : Type*} (step : S → E → S)

/-- The state a run ends in. -/
def exec (s : S) (es : List E) : S := es.foldl step s

/-- `P` holds in every state the run visits, the first and the last included. -/
def Along (P : S → Prop) : S → List E → Prop
  | s, [] => P s
  | s, e :: es => P s ∧ Along P (step s e) es

/-- Every event of the run meets `G` in the state it arrives in. -/
def Guarded (G : S → E → Prop) : S → List E → Prop
  | _, [] => True
  | s, e :: es => G s e ∧ Guarded G (step s e) es

instance Along.decidable (P : S → Prop) [DecidablePred P] :
    ∀ (s : S) (es : List E), Decidable (Along step P s es)
  | s, [] => inferInstanceAs (Decidable (P s))
  | s, e :: es =>
      haveI := Along.decidable P (step s e) es
      inferInstanceAs (Decidable (P s ∧ Along step P (step s e) es))

instance Guarded.decidable (G : S → E → Prop) [∀ s e, Decidable (G s e)] :
    ∀ (s : S) (es : List E), Decidable (Guarded step G s es)
  | _, [] => inferInstanceAs (Decidable True)
  | s, e :: es =>
      haveI := Guarded.decidable G (step s e) es
      inferInstanceAs (Decidable (G s e ∧ Guarded step G (step s e) es))

variable {step}

@[simp] theorem exec_nil (s : S) : exec step s [] = s := rfl

@[simp] theorem exec_cons (s : S) (e : E) (es : List E) :
    exec step s (e :: es) = exec step (step s e) es := rfl

theorem exec_append (s : S) (es fs : List E) :
    exec step s (es ++ fs) = exec step (exec step s es) fs := List.foldl_append

@[simp] theorem along_nil (P : S → Prop) (s : S) :
    Along step P s ([] : List E) ↔ P s := Iff.rfl

@[simp] theorem along_cons (P : S → Prop) (s : S) (e : E) (es : List E) :
    Along step P s (e :: es) ↔ P s ∧ Along step P (step s e) es := Iff.rfl

@[simp] theorem guarded_nil (G : S → E → Prop) (s : S) : Guarded step G s [] ↔ True := Iff.rfl

@[simp] theorem guarded_cons (G : S → E → Prop) (s : S) (e : E) (es : List E) :
    Guarded step G s (e :: es) ↔ G s e ∧ Guarded step G (step s e) es := Iff.rfl

/-! ### What a visited state is -/

theorem Along.head {P : S → Prop} {s : S} {es : List E} (h : Along step P s es) : P s := by
  cases es with
  | nil => exact h
  | cons e es => exact h.1

/-- Holding along a run is holding after each of its prefixes. -/
theorem along_iff_visited {P : S → Prop} {s : S} {es : List E} :
    Along step P s es ↔ ∀ pre post, es = pre ++ post → P (exec step s pre) := by
  induction es generalizing s with
  | nil =>
      constructor
      · intro h pre post heq
        obtain ⟨rfl, rfl⟩ := List.nil_eq_append_iff.mp heq
        exact h
      · intro h
        exact h [] [] rfl
  | cons e es ih =>
      constructor
      · rintro ⟨hs, hrest⟩ pre post heq
        cases pre with
        | nil => exact hs
        | cons e' pre =>
            obtain ⟨rfl, heq'⟩ := List.cons.inj heq
            exact ih.mp hrest pre post heq'
      · intro h
        refine ⟨h [] _ rfl, ih.mpr fun pre post heq => ?_⟩
        exact h (e :: pre) post (by rw [heq]; rfl)

theorem Along.last {P : S → Prop} {s : S} {es : List E} (h : Along step P s es) :
    P (exec step s es) :=
  along_iff_visited.mp h es [] (by simp)

theorem Along.concat {P : S → Prop} {s : S} {es : List E} {e : E} (h : Along step P s es)
    (hlast : P (exec step s (es ++ [e]))) : Along step P s (es ++ [e]) := by
  induction es generalizing s with
  | nil => exact ⟨h, hlast⟩
  | cons e' es ih => exact ⟨h.1, ih h.2 hlast⟩

theorem not_along_of_last {P : S → Prop} {s : S} {es : List E} (h : ¬P (exec step s es)) :
    ¬Along step P s es :=
  fun halong => h halong.last

theorem Guarded.append {G : S → E → Prop} {s : S} {es fs : List E} :
    Guarded step G s (es ++ fs) ↔ Guarded step G s es ∧ Guarded step G (exec step s es) fs := by
  induction es generalizing s with
  | nil => simp
  | cons e es ih => simp [ih, and_assoc]

theorem Guarded.and {G G' : S → E → Prop} {s : S} {es : List E} (h : Guarded step G s es)
    (h' : Guarded step G' s es) : Guarded step (fun s e => G s e ∧ G' s e) s es := by
  induction es generalizing s with
  | nil => trivial
  | cons e es ih => exact ⟨⟨h.1, h'.1⟩, ih h.2 h'.2⟩

theorem guarded_of_forall {G : S → E → Prop} (h : ∀ s e, G s e) {s : S} {es : List E} :
    Guarded step G s es := by
  induction es generalizing s with
  | nil => trivial
  | cons e es ih => exact ⟨h s e, ih⟩

theorem guarded_of_mem {G : E → Prop} {es : List E} (h : ∀ e ∈ es, G e) {s : S} :
    Guarded step (fun _ e => G e) s es := by
  induction es generalizing s with
  | nil => trivial
  | cons e es ih => exact ⟨h e (by simp), ih fun e' he' => h e' (by simp [he'])⟩

theorem Along.imp {P Q : S → Prop} (himp : ∀ s, P s → Q s) {s : S} {es : List E}
    (h : Along step P s es) : Along step Q s es :=
  along_iff_visited.mpr fun pre post heq => himp _ (along_iff_visited.mp h pre post heq)

/-! ### The rules -/

/-- **Invariant rule.**  A guarded run never leaves an invariant its guarded steps keep. -/
theorem along_of_guarded {I : S → Prop} {G : S → E → Prop}
    (hstep : ∀ s e, I s → G s e → I (step s e)) {s : S} {es : List E} (hs : I s)
    (hg : Guarded step G s es) : Along step I s es := by
  induction es generalizing s with
  | nil => exact hs
  | cons e es ih => exact ⟨hs, ih (hstep s e hs hg.1) hg.2⟩

/-- **Guard rule.**  From states of an invariant that guarded steps keep, every guarded step
meets what the invariant is for. -/
theorem Guarded.of_inv {I : S → Prop} {G H : S → E → Prop}
    (hstep : ∀ s e, I s → G s e → H s e ∧ I (step s e)) {s : S} {es : List E} (hs : I s)
    (hg : Guarded step G s es) : Guarded step H s es := by
  induction es generalizing s with
  | nil => trivial
  | cons e es ih =>
      obtain ⟨hH, hI⟩ := hstep s e hs hg.1
      exact ⟨hH, ih hI hg.2⟩

/--
**Exact guard rule.**  If a step out of the invariant's states stays inside exactly
when it meets the guard, a run stays inside exactly when it is guarded.
-/
theorem along_iff_guarded {I : S → Prop} {G : S → E → Prop}
    (hstep : ∀ s e, I s → (I (step s e) ↔ G s e)) {s : S} {es : List E} (hs : I s) :
    Along step I s es ↔ Guarded step G s es := by
  induction es generalizing s with
  | nil => simpa using hs
  | cons e es ih =>
      constructor
      · rintro ⟨-, hrest⟩
        have hnext : I (step s e) := hrest.head
        exact ⟨(hstep s e hs).mp hnext, (ih hnext).mp hrest⟩
      · rintro ⟨hg, hrest⟩
        have hnext : I (step s e) := (hstep s e hs).mpr hg
        exact ⟨hs, (ih hnext).mpr hrest⟩

/--
**Exact guard rule, with an invariant.**  While the steps meet `H`, the invariant survives the
steps that meet the guard, and after any other step `P` fails.
-/
theorem along_iff_guarded_of_inv {I P : S → Prop} {H G : S → E → Prop} (hP : ∀ s, I s → P s)
    (hkeep : ∀ s e, I s → H s e → G s e → I (step s e))
    (hneed : ∀ s e, I s → H s e → P (step s e) → G s e) {s : S} {es : List E} (hs : I s)
    (hH : Guarded step H s es) : Along step P s es ↔ Guarded step G s es := by
  induction es generalizing s with
  | nil => simpa using hP s hs
  | cons e es ih =>
      constructor
      · rintro ⟨-, hrest⟩
        have hg : G s e := hneed s e hs hH.1 hrest.head
        exact ⟨hg, (ih (hkeep s e hs hH.1 hg) hH.2).mp hrest⟩
      · rintro ⟨hg, hrest⟩
        exact ⟨hP s hs, (ih (hkeep s e hs hH.1 hg) hH.2).mpr hrest⟩

/-- **Frame rule.**  A reflexive, transitive relation that guarded steps respect relates
the two ends of a guarded run. -/
theorem rel_of_guarded {I : S → Prop} {G : S → E → Prop} {R : S → S → Prop}
    (hrefl : ∀ s, R s s) (htrans : ∀ {a b c}, R a b → R b c → R a c)
    (hstep : ∀ s e, I s → G s e → I (step s e) ∧ R s (step s e)) {s : S} {es : List E}
    (hs : I s) (hg : Guarded step G s es) : R s (exec step s es) := by
  induction es generalizing s with
  | nil => exact hrefl s
  | cons e es ih =>
      obtain ⟨hI, hR⟩ := hstep s e hs hg.1
      exact htrans hR (ih hI hg.2)

/-! ### What has brought it about -/

/-- `P` holds at the end of the run, and has since the run began, or since the event that brought
it about. -/
def Since (step : S → E → S) (P : S → Prop) (Cause : S → E → Prop) (s : S) (es : List E) : Prop :=
  Along step P s es ∨ ∃ pre e post, es = pre ++ e :: post ∧ Cause (exec step s pre) e ∧
    Along step P (step (exec step s pre) e) post

/-- **Provenance rule.**  If a step out of the invariant's states does not make `P` true unless it
is a cause of `P`, then what holds at the end of a run has a cause, and has held since. -/
theorem since_of_step {I P : S → Prop} {Cause : S → E → Prop}
    (hI : ∀ s e, I s → I (step s e)) (hcause : ∀ s e, I s → P (step s e) → P s ∨ Cause s e)
    {s : S} (hs : I s) {es : List E} (h : P (exec step s es)) : Since step P Cause s es := by
  induction es generalizing s with
  | nil => exact .inl h
  | cons e es ih =>
      rcases ih (hI s e hs) h with hall | ⟨pre, e', post, rfl, hcaused, hsince⟩
      · rcases hcause s e hs hall.head with hbefore | hcaused
        · exact .inl ⟨hbefore, hall⟩
        · exact .inr ⟨[], e, es, rfl, hcaused, hall⟩
      · exact .inr ⟨e :: pre, e', post, rfl, hcaused, hsince⟩

end Run
