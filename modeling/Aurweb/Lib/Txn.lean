/-
Programs over a database connection.

A program runs statements against the working state of a connection and commits it now
and then.  Every statement, every commit and every step outside the database is a tick,
and which ticks fail, and how, is an argument of the run: a lost connection, a killed
process and a value the database rejects are all a failing tick.  Whatever is not
committed when the program ends is gone.

There are several ways to reason about such a program.  `Preserves P` holds of programs
that keep a property of the state whatever fails, and `Secures C W p Q` of those that keep one
of what is stored while the working state goes through others.  `Triple P p Q` says what a
run that gets through ends in, and `Yields p s a s'` is the special case of a program whose
result is a function of the working state; `Returns` says that an undisturbed run gets through.  `FirstCommit n E p c` executes a program symbolically up to its
first commit: the failures before it leave nothing behind, and none after it can be
undone.
-/
import Mathlib.Logic.Basic

namespace Txn

/-- What is stored, what this connection sees of its own work, and the ticks so far. -/
structure Conn (σ : Type) where
  committed : σ
  working : σ
  ticks : Nat

def Prog (σ ε α : Type) := (Nat → Option ε) → Conn σ → Except ε α × Conn σ

variable {σ ε α β γ : Type}

namespace Prog

def ret (a : α) : Prog σ ε α := fun _ c => (.ok a, c)

def andThen (p : Prog σ ε α) (f : α → Prog σ ε β) : Prog σ ε β := fun faults c =>
  match p faults c with
  | (.ok a, c') => f a faults c'
  | (.error e, c') => (.error e, c')

instance : Monad (Prog σ ε) where
  pure := ret
  bind := andThen

/-- A statement; one that fails leaves the working state as it was. -/
def stmt (f : σ → Except ε (α × σ)) : Prog σ ε α := fun faults c =>
  match faults c.ticks with
  | some e => (.error e, { c with ticks := c.ticks + 1 })
  | none =>
      match f c.working with
      | .error e => (.error e, { c with ticks := c.ticks + 1 })
      | .ok (a, w) => (.ok a, { c with working := w, ticks := c.ticks + 1 })

/-- A statement a constraint of the schema guards. -/
def constrained (violated : σ → Bool) (e : ε) (f : σ → α × σ) : Prog σ ε α :=
  stmt fun s => if violated s then .error e else .ok (f s)

def query (f : σ → α) : Prog σ ε α := stmt fun s => .ok (f s, s)

def write (f : σ → σ) : Prog σ ε Unit := stmt fun s => .ok ((), f s)

/-- A step outside the database. -/
def external : Prog σ ε Unit := stmt fun s => .ok ((), s)

def commit : Prog σ ε Unit := fun faults c =>
  match faults c.ticks with
  | some e => (.error e, { c with ticks := c.ticks + 1 })
  | none => (.ok (), { committed := c.working, working := c.working, ticks := c.ticks + 1 })

/-- The program gives up. -/
def raise (e : ε) : Prog σ ε α := fun _ c => (.error e, c)

/-- A computation that may give up, without a statement. -/
def ofExcept : Except ε α → Prog σ ε α
  | .ok a => pure a
  | .error e => raise e

/-- A one-armed `if`. -/
def when (b : Bool) (p : Prog σ ε Unit) : Prog σ ε Unit := if b then p else pure ()

def forEach : List β → (β → Prog σ ε Unit) → Prog σ ε Unit
  | [], _ => pure ()
  | x :: xs, body => do
      body x
      forEach xs body

/-- The outcome, and what is stored afterwards. -/
def run (p : Prog σ ε α) (faults : Nat → Option ε) (s : σ) : Except ε α × σ :=
  ((p faults ⟨s, s, 0⟩).1, (p faults ⟨s, s, 0⟩).2.committed)

theorem bind_apply (p : Prog σ ε α) (f : α → Prog σ ε β) (faults : Nat → Option ε) (c : Conn σ) :
    (p >>= f) faults c = match p faults c with
      | (.ok a, c') => f a faults c'
      | (.error e, c') => (.error e, c') := rfl

@[simp] theorem pure_bind (a : α) (f : α → Prog σ ε β) : (pure a >>= f) = f a := rfl

theorem bind_assoc (p : Prog σ ε α) (f : α → Prog σ ε β) (g : β → Prog σ ε γ) :
    (p >>= f) >>= g = p >>= fun a => f a >>= g := by
  funext faults c
  simp only [bind_apply]
  cases h : p faults c with
  | mk r c' => cases r <;> rfl

@[simp] theorem when_true (p : Prog σ ε Unit) : when true p = p := rfl

@[simp] theorem when_false (p : Prog σ ε Unit) : when false p = pure () := rfl

theorem forEach_cons (x : β) (xs : List β) (body : β → Prog σ ε Unit) :
    forEach (x :: xs) body = body x >>= fun _ => forEach xs body := rfl

theorem forEach_congr {xs : List β} {f g : β → Prog σ ε Unit} (h : ∀ x ∈ xs, f x = g x) :
    forEach xs f = forEach xs g := by
  induction xs with
  | nil => rfl
  | cons x xs ih =>
      rw [forEach_cons, forEach_cons, h x (by simp), ih fun y hy => h y (by simp [hy])]

end Prog

open Prog

/-! ### What no failure breaks -/

/-- A property of the state that survives every statement of the program. -/
def Preserves (P : σ → Prop) (p : Prog σ ε α) : Prop :=
  ∀ faults c, P c.committed → P c.working →
    P (p faults c).2.committed ∧ P (p faults c).2.working

namespace Preserves

variable {P : σ → Prop}

theorem pure (a : α) : Preserves P (Pure.pure a : Prog σ ε α) := fun _ _ h h' => ⟨h, h'⟩

theorem raise (e : ε) : Preserves P (Prog.raise e : Prog σ ε α) := fun _ _ h h' => ⟨h, h'⟩

theorem bind {p : Prog σ ε α} {f : α → Prog σ ε β} (hp : Preserves P p)
    (hf : ∀ a, Preserves P (f a)) : Preserves P (p >>= f) := by
  intro faults c h h'
  have hc := hp faults c h h'
  rw [bind_apply]
  cases hr : p faults c with
  | mk r c' =>
      rw [hr] at hc
      cases r with
      | ok a => exact hf a faults c' hc.1 hc.2
      | error e => exact hc

theorem stmt {f : σ → Except ε (α × σ)} (hf : ∀ s a s', P s → f s = .ok (a, s') → P s') :
    Preserves P (Prog.stmt f) := by
  intro faults c h h'
  unfold Prog.stmt
  split
  · exact ⟨h, h'⟩
  · split
    · exact ⟨h, h'⟩
    · rename_i a w hw
      exact ⟨h, hf c.working a w h' hw⟩

theorem constrained {violated : σ → Bool} {e : ε} {f : σ → α × σ}
    (hf : ∀ s, violated s = false → P s → P (f s).2) :
    Preserves P (Prog.constrained violated e f) := by
  refine stmt fun s a s' hs h => ?_
  cases hv : violated s with
  | true => simp [hv] at h
  | false =>
      have hpair : f s = (a, s') := by simpa [hv] using h
      simpa [hpair] using hf s hv hs

theorem query (f : σ → α) : Preserves P (Prog.query f : Prog σ ε α) := by
  refine stmt fun s a s' hs h => ?_
  obtain ⟨-, rfl⟩ := Prod.mk.inj (Except.ok.inj h)
  exact hs

/-- What a query answers, it answers about a state with the property. -/
theorem bind_query {f : σ → α} {g : α → Prog σ ε β} (hg : ∀ s, P s → Preserves P (g (f s))) :
    Preserves P (Prog.query f >>= g) := by
  intro faults c h h'
  rw [bind_apply]
  unfold Prog.query Prog.stmt
  cases faults c.ticks with
  | some e => exact ⟨h, h'⟩
  | none => exact hg c.working h' faults _ h h'

theorem external : Preserves P (Prog.external : Prog σ ε Unit) := by
  refine stmt fun s a s' hs h => ?_
  obtain ⟨-, rfl⟩ := Prod.mk.inj (Except.ok.inj h)
  exact hs

theorem write {f : σ → σ} (hf : ∀ s, P s → P (f s)) :
    Preserves P (Prog.write f : Prog σ ε Unit) := by
  refine stmt fun s a s' hs h => ?_
  obtain ⟨-, rfl⟩ := Prod.mk.inj (Except.ok.inj h)
  exact hf s hs

theorem commit : Preserves P (Prog.commit : Prog σ ε Unit) := by
  intro faults c h h'
  unfold Prog.commit
  split
  · exact ⟨h, h'⟩
  · exact ⟨h', h'⟩

theorem ofExcept (r : Except ε α) : Preserves P (Prog.ofExcept r : Prog σ ε α) := by
  cases r with
  | ok a => exact Preserves.pure a
  | error e => exact Preserves.raise e

theorem when {b : Bool} {p : Prog σ ε Unit} (hp : b = true → Preserves P p) :
    Preserves P (Prog.when b p) := by
  cases b with
  | true => exact hp rfl
  | false => exact Preserves.pure ()

theorem forEach {body : β → Prog σ ε Unit} :
    ∀ {xs : List β}, (∀ x ∈ xs, Preserves P (body x)) → Preserves P (Prog.forEach xs body)
  | [], _ => Preserves.pure ()
  | x :: xs, h =>
      Preserves.bind (h x (by simp)) fun _ => Preserves.forEach fun y hy => h y (by simp [hy])

theorem run {p : Prog σ ε α} (hp : Preserves P p) (faults : Nat → Option ε) {s : σ} (hs : P s) :
    P (p.run faults s).2 :=
  (hp faults ⟨s, s, 0⟩ hs hs).1

end Preserves

/-! ### What is stored at any time -/

/-- From a working state in `W`, whatever fails: what is stored stays in `C`, and a run that
returns leaves a working state in `Q`. -/
def Secures (C W : σ → Prop) (p : Prog σ ε α) (Q : α → σ → Prop) : Prop :=
  ∀ faults c, C c.committed → W c.working →
    C (p faults c).2.committed ∧ ∀ a, (p faults c).1 = .ok a → Q a (p faults c).2.working

namespace Secures

variable {C W : σ → Prop}

theorem pure {Q : α → σ → Prop} {a : α} (h : ∀ s, W s → Q a s) :
    Secures C W (Pure.pure a : Prog σ ε α) Q := by
  intro faults c hC hW
  refine ⟨hC, fun b hb => ?_⟩
  obtain rfl := Except.ok.inj hb
  exact h c.working hW

theorem raise {Q : α → σ → Prop} (e : ε) : Secures C W (Prog.raise e : Prog σ ε α) Q := by
  intro faults c hC _
  refine ⟨hC, fun a ha => ?_⟩
  cases ha

theorem bind {p : Prog σ ε α} {f : α → Prog σ ε β} {R : α → σ → Prop} {Q : β → σ → Prop}
    (hp : Secures C W p R) (hf : ∀ a, Secures C (R a) (f a) Q) : Secures C W (p >>= f) Q := by
  intro faults c hC hW
  obtain ⟨hcommitted, hret⟩ := hp faults c hC hW
  rw [bind_apply]
  cases hr : p faults c with
  | mk r c' =>
      rw [hr] at hcommitted hret
      cases r with
      | ok a => exact hf a faults c' hcommitted (hret a rfl)
      | error e =>
          refine ⟨hcommitted, fun b hb => ?_⟩
          cases hb

theorem stmt {f : σ → Except ε (α × σ)} {Q : α → σ → Prop}
    (hf : ∀ s a s', W s → f s = .ok (a, s') → Q a s') : Secures C W (Prog.stmt f) Q := by
  intro faults c hC hW
  unfold Prog.stmt
  split
  · exact ⟨hC, fun a ha => by cases ha⟩
  · split
    · exact ⟨hC, fun a ha => by cases ha⟩
    · rename_i b w hw
      refine ⟨hC, fun a ha => ?_⟩
      obtain rfl := Except.ok.inj ha
      exact hf c.working b w hW hw

theorem constrained {violated : σ → Bool} {e : ε} {f : σ → α × σ} {Q : α → σ → Prop}
    (hf : ∀ s, W s → violated s = false → Q (f s).1 (f s).2) :
    Secures C W (Prog.constrained violated e f) Q := by
  refine stmt fun s a s' hW heq => ?_
  cases hv : violated s with
  | true => simp [hv] at heq
  | false =>
      have hpair : f s = (a, s') := by simpa [hv] using heq
      simpa [hpair] using hf s hW hv

theorem query {f : σ → α} {Q : α → σ → Prop} (h : ∀ s, W s → Q (f s) s) :
    Secures C W (Prog.query f : Prog σ ε α) Q := by
  refine stmt fun s a s' hW heq => ?_
  obtain ⟨rfl, rfl⟩ := Prod.mk.inj (Except.ok.inj heq)
  exact h s hW

theorem write {f : σ → σ} {Q : Unit → σ → Prop} (h : ∀ s, W s → Q () (f s)) :
    Secures C W (Prog.write f : Prog σ ε Unit) Q := by
  refine stmt fun s a s' hW heq => ?_
  obtain ⟨-, rfl⟩ := Prod.mk.inj (Except.ok.inj heq)
  exact h s hW

theorem external {Q : Unit → σ → Prop} (h : ∀ s, W s → Q () s) :
    Secures C W (Prog.external : Prog σ ε Unit) Q := by
  refine stmt fun s a s' hW heq => ?_
  obtain ⟨-, rfl⟩ := Prod.mk.inj (Except.ok.inj heq)
  exact h s hW

theorem commit {Q : Unit → σ → Prop} (h : ∀ s, W s → C s ∧ Q () s) :
    Secures C W (Prog.commit : Prog σ ε Unit) Q := by
  intro faults c hC hW
  unfold Prog.commit
  split
  · exact ⟨hC, fun a ha => by cases ha⟩
  · exact ⟨(h c.working hW).1, fun _ _ => (h c.working hW).2⟩

theorem ofExcept {r : Except ε α} {Q : α → σ → Prop} (h : ∀ s a, W s → r = .ok a → Q a s) :
    Secures C W (Prog.ofExcept r : Prog σ ε α) Q := by
  cases r with
  | ok a => exact pure fun s hW => h s a hW rfl
  | error e => exact raise e

theorem when {b : Bool} {p : Prog σ ε Unit} {Q : Unit → σ → Prop}
    (hp : b = true → Secures C W p Q) (hskip : ∀ s, W s → Q () s) :
    Secures C W (Prog.when b p) Q := by
  cases b with
  | true => exact hp rfl
  | false => exact pure hskip

/-- The loop rule. -/
theorem forEach {body : β → Prog σ ε Unit} {xs : List β}
    (h : ∀ x ∈ xs, Secures C W (body x) fun _ => W) :
    Secures C W (Prog.forEach xs body) fun _ => W := by
  induction xs with
  | nil => exact pure fun _ hW => hW
  | cons x xs ih =>
      rw [forEach_cons]
      exact bind (h x (by simp)) fun _ => ih fun y hy => h y (by simp [hy])

theorem imp {p : Prog σ ε α} {W' : σ → Prop} {Q Q' : α → σ → Prop} (hp : Secures C W p Q)
    (hW : ∀ s, W' s → W s) (hQ : ∀ a s, Q a s → Q' a s) : Secures C W' p Q' := by
  intro faults c hC hW'
  obtain ⟨hcommitted, hret⟩ := hp faults c hC (hW _ hW')
  exact ⟨hcommitted, fun a ha => hQ a _ (hret a ha)⟩

/-- A fact about no state may be assumed outright. -/
theorem assume {h : Prop} {p : Prog σ ε α} {Q : α → σ → Prop} (hp : h → Secures C W p Q) :
    Secures C (fun s => h ∧ W s) p Q :=
  fun faults c hC hW => hp hW.1 faults c hC hW.2

/-- The state may be given a name. -/
theorem intro {p : Prog σ ε α} {Q : α → σ → Prop} (h : ∀ s, W s → Secures C (· = s) p Q) :
    Secures C W p Q :=
  fun faults c hC hW => h c.working hW faults c hC rfl

theorem run {p : Prog σ ε α} {Q : α → σ → Prop} {s : σ} (hp : Secures C (· = s) p Q)
    (faults : Nat → Option ε) (hC : C s) : C (p.run faults s).2 :=
  (hp faults ⟨s, s, 0⟩ hC rfl).1

end Secures

/-! ### What a run that gets through ends in -/

/-- From a connection in `P`, a run that returns ends in `Q`. -/
def Triple (P : Conn σ → Prop) (p : Prog σ ε α) (Q : α → Conn σ → Prop) : Prop :=
  ∀ faults c, P c → ∀ a c', p faults c = (.ok a, c') → Q a c'

namespace Triple

variable {P : Conn σ → Prop}

theorem pure {Q : α → Conn σ → Prop} {a : α} (h : ∀ c, P c → Q a c) :
    Triple P (Pure.pure a : Prog σ ε α) Q := by
  intro faults c hP b c' heq
  obtain ⟨hb, rfl⟩ := Prod.mk.inj heq
  obtain rfl := Except.ok.inj hb
  exact h c hP

theorem raise {Q : α → Conn σ → Prop} (e : ε) : Triple P (Prog.raise e : Prog σ ε α) Q := by
  intro faults c _ a c' heq
  exact absurd (Prod.mk.inj heq).1 (by simp)

theorem bind {p : Prog σ ε α} {f : α → Prog σ ε β} {R : α → Conn σ → Prop}
    {Q : β → Conn σ → Prop} (hp : Triple P p R) (hf : ∀ a, Triple (R a) (f a) Q) :
    Triple P (p >>= f) Q := by
  intro faults c hP b c' heq
  rw [bind_apply] at heq
  cases hr : p faults c with
  | mk r c₁ =>
      rw [hr] at heq
      cases r with
      | ok a => exact hf a faults c₁ (hp faults c hP a c₁ hr) b c' heq
      | error e => exact absurd (Prod.mk.inj heq).1 (by simp)

/-- A fact about no state may be assumed outright. -/
theorem assume {h : Prop} {p : Prog σ ε α} {Q : α → Conn σ → Prop} (hp : h → Triple P p Q) :
    Triple (fun c => h ∧ P c) p Q :=
  fun faults c hc a c' heq => hp hc.1 faults c hc.2 a c' heq

theorem stmt {f : σ → Except ε (α × σ)} {Q : α → Conn σ → Prop}
    (hf : ∀ c a s', P c → f c.working = .ok (a, s') →
      Q a { c with working := s', ticks := c.ticks + 1 }) :
    Triple P (Prog.stmt f) Q := by
  intro faults c hP a c' heq
  unfold Prog.stmt at heq
  split at heq
  · exact absurd (Prod.mk.inj heq).1 (by simp)
  · split at heq
    · exact absurd (Prod.mk.inj heq).1 (by simp)
    · rename_i b w hw
      obtain ⟨hb, rfl⟩ := Prod.mk.inj heq
      obtain rfl := Except.ok.inj hb
      exact hf c b w hP hw

theorem constrained {violated : σ → Bool} {e : ε} {f : σ → α × σ} {Q : α → Conn σ → Prop}
    (h : ∀ c, P c → violated c.working = false →
      Q (f c.working).1 { c with working := (f c.working).2, ticks := c.ticks + 1 }) :
    Triple P (Prog.constrained violated e f) Q := by
  refine stmt fun c a s' hP heq => ?_
  cases hv : violated c.working with
  | true => simp [hv] at heq
  | false =>
      have hpair : f c.working = (a, s') := by simpa [hv] using heq
      simpa [hpair] using h c hP hv

theorem query {f : σ → α} {Q : α → Conn σ → Prop}
    (h : ∀ c, P c → Q (f c.working) { c with ticks := c.ticks + 1 }) :
    Triple P (Prog.query f : Prog σ ε α) Q := by
  refine stmt fun c a s' hP heq => ?_
  obtain ⟨rfl, rfl⟩ := Prod.mk.inj (Except.ok.inj heq)
  exact h c hP

theorem write {f : σ → σ} {Q : Unit → Conn σ → Prop}
    (h : ∀ c, P c → Q () { c with working := f c.working, ticks := c.ticks + 1 }) :
    Triple P (Prog.write f : Prog σ ε Unit) Q := by
  refine stmt fun c a s' hP heq => ?_
  obtain ⟨-, rfl⟩ := Prod.mk.inj (Except.ok.inj heq)
  exact h c hP

theorem external {Q : Unit → Conn σ → Prop}
    (h : ∀ c, P c → Q () { c with ticks := c.ticks + 1 }) :
    Triple P (Prog.external : Prog σ ε Unit) Q := by
  refine stmt fun c a s' hP heq => ?_
  obtain ⟨-, rfl⟩ := Prod.mk.inj (Except.ok.inj heq)
  exact h c hP

theorem commit {Q : Unit → Conn σ → Prop}
    (h : ∀ c, P c → Q () ⟨c.working, c.working, c.ticks + 1⟩) :
    Triple P (Prog.commit : Prog σ ε Unit) Q := by
  intro faults c hP a c' heq
  unfold Prog.commit at heq
  split at heq
  · exact absurd (Prod.mk.inj heq).1 (by simp)
  · obtain ⟨-, rfl⟩ := Prod.mk.inj heq
    exact h c hP

/-- The loop rule: `I` knows which elements have been done. -/
theorem forEach {body : β → Prog σ ε Unit} {I : List β → Conn σ → Prop} (done xs : List β)
    (h : ∀ pre x post, done ++ xs = pre ++ x :: post →
      Triple (I pre) (body x) fun _ => I (pre ++ [x])) :
    Triple (I done) (Prog.forEach xs body) fun _ => I (done ++ xs) := by
  induction xs generalizing done with
  | nil => exact Triple.pure fun c hc => by simpa using hc
  | cons x xs ih =>
      rw [forEach_cons]
      refine Triple.bind (h done x xs rfl) fun _ => ?_
      have hrest := ih (done ++ [x]) fun pre y post heq => h pre y post (by simpa using heq)
      simpa using hrest

theorem imp {p : Prog σ ε α} {P' : Conn σ → Prop} {Q Q' : α → Conn σ → Prop}
    (hp : Triple P p Q) (hP : ∀ c, P' c → P c) (hQ : ∀ a c, Q a c → Q' a c) : Triple P' p Q' :=
  fun faults c h a c' heq => hQ a c' (hp faults c (hP c h) a c' heq)

theorem ofExcept {r : Except ε α} {Q : α → Conn σ → Prop}
    (h : ∀ c a, P c → r = .ok a → Q a c) : Triple P (Prog.ofExcept r : Prog σ ε α) Q := by
  cases r with
  | ok a => exact Triple.pure fun c hc => h c a hc rfl
  | error e => exact Triple.raise e

theorem when {b : Bool} {p : Prog σ ε Unit} {Q : Unit → Conn σ → Prop}
    (hp : b = true → Triple P p Q) (hskip : b = false → ∀ c, P c → Q () c) :
    Triple P (Prog.when b p) Q := by
  cases b with
  | true => exact hp rfl
  | false => exact Triple.pure fun c hc => hskip rfl c hc

theorem run {p : Prog σ ε α} {Q : α → Conn σ → Prop} {s : σ} (hp : Triple (· = ⟨s, s, 0⟩) p Q)
    {faults : Nat → Option ε} {a : α} (h : (p.run faults s).1 = .ok a) :
    ∃ c, Q a c ∧ (p.run faults s).2 = c.committed := by
  refine ⟨(p faults ⟨s, s, 0⟩).2, hp faults _ rfl a _ (Prod.ext h rfl), rfl⟩

end Triple

/-- From a working state `s`, a run that returns returns `a` and leaves `s'`. -/
def Yields (p : Prog σ ε α) (s : σ) (a : α) (s' : σ) : Prop :=
  Triple (fun c => c.working = s) p fun b c => b = a ∧ c.working = s'

namespace Yields

theorem pure (a : α) (s : σ) : Yields (Pure.pure a : Prog σ ε α) s a s :=
  Triple.pure fun _ h => ⟨rfl, h⟩

theorem bind {p : Prog σ ε α} {f : α → Prog σ ε β} {s s' s'' : σ} {a : α} {b : β}
    (hp : Yields p s a s') (hf : Yields (f a) s' b s'') : Yields (p >>= f) s b s'' := by
  refine Triple.bind hp fun a' => ?_
  intro faults c hc
  obtain ⟨rfl, hc⟩ := hc
  exact hf faults c hc

theorem query (f : σ → α) (s : σ) : Yields (Prog.query f : Prog σ ε α) s (f s) s :=
  Triple.query fun _ h => ⟨congrArg f h, h⟩

theorem write (f : σ → σ) (s : σ) : Yields (Prog.write f : Prog σ ε Unit) s () (f s) :=
  Triple.write fun _ h => ⟨rfl, congrArg f h⟩

theorem external (s : σ) : Yields (Prog.external : Prog σ ε Unit) s () s :=
  Triple.external fun _ h => ⟨rfl, h⟩

theorem commit (s : σ) : Yields (Prog.commit : Prog σ ε Unit) s () s :=
  Triple.commit fun _ h => ⟨rfl, h⟩

theorem constrained (violated : σ → Bool) (e : ε) (f : σ → α × σ) (s : σ) :
    Yields (Prog.constrained violated e f) s (f s).1 (f s).2 :=
  Triple.constrained fun _ h _ => ⟨congrArg (fun t => (f t).1) h, congrArg (fun t => (f t).2) h⟩

/-- The loop rule, for states that are a function `F` of what the loop changes. -/
theorem forEach {τ : Type} {body : β → Prog σ ε Unit} {F : τ → σ} {g : τ → β → τ} {xs : List β}
    (h : ∀ x ∈ xs, ∀ t, Yields (body x) (F t) () (F (g t x))) (t : τ) :
    Yields (Prog.forEach xs body) (F t) () (F (xs.foldl g t)) := by
  induction xs generalizing t with
  | nil => exact Yields.pure () _
  | cons x xs ih =>
      exact Yields.bind (h x (by simp) t) (ih (fun y hy => h y (by simp [hy])) (g t x))

/-- A loop that appends to a table. -/
theorem forEach_append {ρ : Type} {body : β → Prog σ ε Unit} {F : List ρ → σ} {f : β → List ρ}
    {xs : List β} (h : ∀ x ∈ xs, ∀ t, Yields (body x) (F t) () (F (t ++ f x))) (t : List ρ) :
    Yields (Prog.forEach xs body) (F t) () (F (t ++ xs.flatMap f)) := by
  have hloop := forEach (g := fun t x => t ++ f x) h t
  rwa [List.foldl_append_eq_append, ← List.flatMap_def] at hloop

end Yields

/-! ### A run that nothing disturbs -/

/-- From a working state in `P`, a run in which no tick fails returns. -/
def Returns (P : σ → Prop) (p : Prog σ ε α) : Prop :=
  ∀ faults c, (∀ k, faults k = none) → P c.working → ∃ a, (p faults c).1 = .ok a

namespace Returns

variable {P : σ → Prop}

theorem pure (a : α) : Returns P (Pure.pure a : Prog σ ε α) := fun _ _ _ _ => ⟨a, rfl⟩

theorem stmt {f : σ → Except ε (α × σ)} (hf : ∀ s, P s → ∃ r, f s = .ok r) :
    Returns P (Prog.stmt f) := by
  intro faults c hnone hP
  obtain ⟨r, hr⟩ := hf c.working hP
  exact ⟨r.1, by simp [Prog.stmt, hnone, hr]⟩

theorem constrained {violated : σ → Bool} {e : ε} {f : σ → α × σ}
    (hfree : ∀ s, P s → violated s = false) : Returns P (Prog.constrained violated e f) :=
  stmt fun s hP => ⟨f s, by simp [hfree s hP]⟩

theorem query (f : σ → α) : Returns P (Prog.query f : Prog σ ε α) := stmt fun _ _ => ⟨_, rfl⟩

theorem write (f : σ → σ) : Returns P (Prog.write f : Prog σ ε Unit) := stmt fun _ _ => ⟨_, rfl⟩

theorem external : Returns P (Prog.external : Prog σ ε Unit) := stmt fun _ _ => ⟨_, rfl⟩

theorem commit : Returns P (Prog.commit : Prog σ ε Unit) := by
  intro faults c hnone _
  exact ⟨(), by simp [Prog.commit, hnone]⟩

theorem imp {p : Prog σ ε α} {P' : σ → Prop} (hp : Returns P p) (hP : ∀ s, P' s → P s) :
    Returns P' p :=
  fun faults c hnone hP' => hp faults c hnone (hP _ hP')

/-- What the first half leaves is up to a `Triple`. -/
theorem bind {p : Prog σ ε α} {f : α → Prog σ ε β} {R : α → σ → Prop} (hp : Returns P p)
    (hR : Triple (fun c => P c.working) p fun a c => R a c.working)
    (hf : ∀ a, Returns (R a) (f a)) : Returns P (p >>= f) := by
  intro faults c hnone hP
  obtain ⟨a, ha⟩ := hp faults c hnone hP
  have hstep : p faults c = (.ok a, (p faults c).2) := Prod.ext ha rfl
  rw [bind_apply, hstep]
  exact hf a faults _ hnone (hR faults c hP a _ hstep)

theorem bind_yields {p : Prog σ ε α} {f : α → Prog σ ε β} {s s' : σ} {a : α}
    (hp : Returns (· = s) p) (hy : Yields p s a s') (hf : Returns (· = s') (f a)) :
    Returns (· = s) (p >>= f) := by
  refine bind (R := fun b t => b = a ∧ t = s') hp hy fun b => ?_
  intro faults c hnone hb
  obtain ⟨rfl, hworking⟩ := hb
  exact hf faults c hnone hworking

/-- A program that returns wherever it starts. -/
theorem bind_always {p : Prog σ ε α} {f : α → Prog σ ε β} (hp : Returns P p)
    (hf : ∀ a, Returns (fun _ => True) (f a)) : Returns P (p >>= f) :=
  bind (R := fun _ _ => True) hp (fun _ _ _ _ _ _ => trivial) hf

theorem forEach_always {body : β → Prog σ ε Unit} {xs : List β}
    (h : ∀ x ∈ xs, Returns (fun _ => True) (body x)) : Returns P (Prog.forEach xs body) := by
  induction xs generalizing P with
  | nil => exact pure ()
  | cons x xs ih =>
      rw [forEach_cons]
      refine bind_always ((h x (by simp)).imp fun _ _ => trivial) fun _ => ?_
      exact ih fun y hy => h y (by simp [hy])

/-- The state may be given a name. -/
theorem intro {p : Prog σ ε α} (h : ∀ s, P s → Returns (· = s) p) : Returns P p :=
  fun faults c hnone hP => h c.working hP faults c hnone rfl

theorem when {b : Bool} {p : Prog σ ε Unit} (hp : b = true → Returns P p) :
    Returns P (Prog.when b p) := by
  cases b with
  | true => exact hp rfl
  | false => exact pure ()

/-- The loop rule: `I` knows which elements have been done. -/
theorem forEach {body : β → Prog σ ε Unit} {I : List β → σ → Prop} (done xs : List β)
    (h : ∀ pre x post, done ++ xs = pre ++ x :: post → Returns (I pre) (body x))
    (hI : ∀ pre x post, done ++ xs = pre ++ x :: post →
      Triple (fun c => I pre c.working) (body x) fun _ c => I (pre ++ [x]) c.working) :
    Returns (I done) (Prog.forEach xs body) := by
  induction xs generalizing done with
  | nil => exact pure ()
  | cons x xs ih =>
      rw [forEach_cons]
      refine bind (h done x xs rfl) (hI done x xs rfl) fun _ => ?_
      refine ih (done ++ [x]) (fun pre y post heq => ?_) fun pre y post heq => ?_
      · exact h pre y post (by simpa using heq)
      · exact hI pre y post (by simpa using heq)

/-- A loop of one statement each that leaves the state alone. -/
theorem forEach_query {xs : List β} {f : β → σ → α} {k : β → α → Prog σ ε Unit} {s : σ}
    (hk : ∀ x ∈ xs, k x (f x s) = Pure.pure ()) :
    Returns (· = s) (Prog.forEach xs fun x => Prog.query (f x) >>= k x) := by
  induction xs with
  | nil => exact pure ()
  | cons x xs ih =>
      have hx := hk x (by simp)
      have hbody : Returns (· = s) (Prog.query (f x) >>= k x) := by
        refine bind_yields (query _) (Yields.query _ s) ?_
        rw [hx]
        exact pure ()
      have hleaves : Yields (Prog.query (f x) >>= k x) s () s := by
        refine Yields.bind (Yields.query _ s) ?_
        rw [hx]
        exact Yields.pure () s
      exact bind_yields hbody hleaves (ih fun y hy => hk y (by simp [hy]))

theorem run {p : Prog σ ε α} {s : σ} (hp : Returns (· = s) p) {faults : Nat → Option ε}
    (hnone : ∀ k, faults k = none) : ∃ a, (p.run faults s).1 = .ok a :=
  hp faults ⟨s, s, 0⟩ hnone rfl

end Returns

/-! ### Up to the first commit -/

/-- The run from `c` fails, and stores nothing, whichever ticks fail. -/
def Refused (p : Prog σ ε α) (c : Conn σ) : Prop :=
  ∀ faults, (∃ e, (p faults c).1 = .error e) ∧ (p faults c).2.committed = c.committed

/--
The first commit of the run from `c` is its tick number `n` from there.  Either a tick up
to that one fails, and the run fails with it and stores nothing, or none does and `E` is
stored for good.
-/
def FirstCommit (n : Nat) (E : σ → Prop) (p : Prog σ ε α) (c : Conn σ) : Prop :=
  ∀ faults,
    (∃ k e, c.ticks ≤ k ∧ k ≤ c.ticks + n ∧ faults k = some e ∧ (p faults c).1 = .error e ∧
      (p faults c).2.committed = c.committed) ∨
    ((∀ k, c.ticks ≤ k → k ≤ c.ticks + n → faults k = none) ∧ E (p faults c).2.committed)

namespace Refused

theorem raise (e : ε) (f : α → Prog σ ε β) (c : Conn σ) : Refused (Prog.raise e >>= f) c :=
  fun _ => ⟨⟨e, rfl⟩, rfl⟩

theorem stmt {f : σ → Except ε (α × σ)} {g : α → Prog σ ε β} {c : Conn σ} {a : α} {w : σ}
    (hf : f c.working = .ok (a, w)) (hg : Refused (g a) ⟨c.committed, w, c.ticks + 1⟩) :
    Refused (Prog.stmt f >>= g) c := by
  intro faults
  cases hk : faults c.ticks with
  | some e => simp [bind_apply, Prog.stmt, hk]
  | none =>
      have := hg faults
      simpa [bind_apply, Prog.stmt, hk, hf] using this

theorem write {f : σ → σ} {g : Unit → Prog σ ε β} {c : Conn σ}
    (hg : Refused (g ()) ⟨c.committed, f c.working, c.ticks + 1⟩) :
    Refused (Prog.write f >>= g) c :=
  stmt rfl hg

theorem query {f : σ → α} {g : α → Prog σ ε β} {c : Conn σ}
    (hg : Refused (g (f c.working)) ⟨c.committed, c.working, c.ticks + 1⟩) :
    Refused (Prog.query f >>= g) c :=
  stmt rfl hg

theorem constrained {violated : σ → Bool} {e : ε} {f : σ → α × σ} {g : α → Prog σ ε β}
    {c : Conn σ} (hv : violated c.working = false)
    (hg : Refused (g (f c.working).1) ⟨c.committed, (f c.working).2, c.ticks + 1⟩) :
    Refused (Prog.constrained violated e f >>= g) c :=
  stmt (by simp [hv]) hg

/-- The constraint itself gives the program up. -/
theorem violated {violated : σ → Bool} {e : ε} {f : σ → α × σ} {g : α → Prog σ ε β}
    {c : Conn σ} (hv : violated c.working = true) :
    Refused (Prog.constrained violated e f >>= g) c := by
  intro faults
  cases hk : faults c.ticks with
  | some e' => simp [bind_apply, Prog.constrained, Prog.stmt, hk]
  | none => simp [bind_apply, Prog.constrained, Prog.stmt, hk, hv]

/-- A loop of one statement each that leaves the state alone. -/
theorem forEach_query {xs : List β} {f : β → σ → α} {k : β → α → Prog σ ε Unit}
    {g : Unit → Prog σ ε γ} {c : Conn σ} (hk : ∀ x ∈ xs, k x (f x c.working) = pure ())
    (hg : Refused (g ()) ⟨c.committed, c.working, c.ticks + xs.length⟩) :
    Refused (Prog.forEach xs (fun x => Prog.query (f x) >>= k x) >>= g) c := by
  induction xs generalizing c with
  | nil => exact hg
  | cons x xs ih =>
      rw [forEach_cons, bind_assoc, bind_assoc]
      refine query ?_
      rw [hk x (by simp), pure_bind]
      refine ih (fun y hy => hk y (by simp [hy])) ?_
      simpa [Nat.add_assoc, Nat.add_comm 1] using hg

end Refused

namespace FirstCommit

variable {E : σ → Prop}

theorem stmt {f : σ → Except ε (α × σ)} {g : α → Prog σ ε β} {c : Conn σ} {n : Nat} {a : α}
    {w : σ} (hf : f c.working = .ok (a, w))
    (hg : FirstCommit n E (g a) ⟨c.committed, w, c.ticks + 1⟩) :
    FirstCommit (n + 1) E (Prog.stmt f >>= g) c := by
  intro faults
  cases hk : faults c.ticks with
  | some e =>
      refine Or.inl ⟨c.ticks, e, Nat.le_refl _, by omega, hk, ?_, ?_⟩
      · simp [bind_apply, Prog.stmt, hk]
      · simp [bind_apply, Prog.stmt, hk]
  | none =>
      have hstep : (Prog.stmt f >>= g) faults c =
          g a faults ⟨c.committed, w, c.ticks + 1⟩ := by
        simp [bind_apply, Prog.stmt, hk, hf]
      rw [hstep]
      rcases hg faults with ⟨k, e, hlo, hhi, hfault, hrun⟩ | ⟨hnone, hE⟩
      · have hlo' : c.ticks + 1 ≤ k := hlo
        have hhi' : k ≤ c.ticks + 1 + n := hhi
        exact Or.inl ⟨k, e, by omega, by omega, hfault, hrun⟩
      · refine Or.inr ⟨fun k hlo hhi => ?_, hE⟩
        by_cases heq : k = c.ticks
        · rw [heq, hk]
        · exact hnone k (show c.ticks + 1 ≤ k by omega) (show k ≤ c.ticks + 1 + n by omega)

theorem query {f : σ → α} {g : α → Prog σ ε β} {c : Conn σ} {n : Nat}
    (hg : FirstCommit n E (g (f c.working)) ⟨c.committed, c.working, c.ticks + 1⟩) :
    FirstCommit (n + 1) E (Prog.query f >>= g) c :=
  stmt rfl hg

theorem constrained {violated : σ → Bool} {e : ε} {f : σ → α × σ} {g : α → Prog σ ε β}
    {c : Conn σ} {n : Nat} (hv : violated c.working = false)
    (hg : FirstCommit n E (g (f c.working).1) ⟨c.committed, (f c.working).2, c.ticks + 1⟩) :
    FirstCommit (n + 1) E (Prog.constrained violated e f >>= g) c :=
  stmt (by simp [hv]) hg

theorem write {f : σ → σ} {g : Unit → Prog σ ε β} {c : Conn σ} {n : Nat}
    (hg : FirstCommit n E (g ()) ⟨c.committed, f c.working, c.ticks + 1⟩) :
    FirstCommit (n + 1) E (Prog.write f >>= g) c :=
  stmt rfl hg

/-- The commit itself; nothing that follows may undo `E`. -/
theorem commit {g : Unit → Prog σ ε β} {c : Conn σ} (hE : E c.working)
    (hg : Preserves E (g ())) : FirstCommit 0 E (Prog.commit >>= g) c := by
  intro faults
  cases hk : faults c.ticks with
  | some e =>
      refine Or.inl ⟨c.ticks, e, Nat.le_refl _, Nat.le_refl _, hk, ?_, ?_⟩
      · simp [bind_apply, Prog.commit, hk]
      · simp [bind_apply, Prog.commit, hk]
  | none =>
      have hstep : (Prog.commit >>= g) faults c =
          g () faults ⟨c.working, c.working, c.ticks + 1⟩ := by
        simp [bind_apply, Prog.commit, hk]
      rw [hstep]
      refine Or.inr ⟨fun k hlo hhi => ?_, ?_⟩
      · have heq : k = c.ticks := Nat.le_antisymm hhi hlo
        rw [heq, hk]
      · exact (hg faults ⟨c.working, c.working, c.ticks + 1⟩ hE hE).1

/-- A failure up to that tick is the end of the run. -/
theorem early {p : Prog σ ε α} {c : Conn σ} {n : Nat} (h : FirstCommit n E p c)
    {faults : Nat → Option ε} {k : Nat} (hlo : c.ticks ≤ k) (hhi : k ≤ c.ticks + n)
    (hfault : faults k ≠ none) :
    (∃ e, (p faults c).1 = .error e) ∧ (p faults c).2.committed = c.committed := by
  rcases h faults with ⟨_, e, _, _, _, hrun, hstored⟩ | ⟨hnone, -⟩
  · exact ⟨⟨e, hrun⟩, hstored⟩
  · exact absurd (hnone k hlo hhi) hfault

/-- A loop of one statement each that leaves the state alone. -/
theorem forEach_query {xs : List β} {f : β → σ → α} {k : β → α → Prog σ ε Unit}
    {g : Unit → Prog σ ε γ} {c : Conn σ} {n : Nat}
    (hk : ∀ x ∈ xs, k x (f x c.working) = pure ())
    (hg : FirstCommit n E (g ()) ⟨c.committed, c.working, c.ticks + xs.length⟩) :
    FirstCommit (n + xs.length) E (Prog.forEach xs (fun x => Prog.query (f x) >>= k x) >>= g) c := by
  induction xs generalizing c with
  | nil => exact hg
  | cons x xs ih =>
      rw [forEach_cons, bind_assoc, bind_assoc]
      refine query ?_
      rw [hk x (by simp), pure_bind]
      refine ih (fun y hy => hk y (by simp [hy])) ?_
      simpa [Nat.add_assoc, Nat.add_comm 1] using hg

end FirstCommit

end Txn
