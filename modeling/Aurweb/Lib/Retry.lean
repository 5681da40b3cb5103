/-
Programs of several transactions, one of which may be rolled back and asked for again.

A program runs on a `World`: what is stored, and the transaction that is yet to be chosen as
the victim of a deadlock.  `Survives v p f` says that `p` does what `f` does on what is stored,
with the victim `v` as without one.  It is a rule for each way to build a program: a
transaction, a sequence, and a retry.  A retry makes up for a deadlock that has left everything
as it was, and for nothing else.  `Spares v p f` is the same for a program the victim is not
part of.
-/
import Mathlib.Tactic.Common

namespace Retry

variable {ι σ ε α β : Type}

/-- What is stored, and which transaction is the next victim. -/
structure World (ι σ : Type) where
  stored : σ
  victim : Option ι

/-- A program that may raise; what it has stored before stays. -/
abbrev Program (ε σ α : Type) := σ → Except ε α × σ

/-- One program, and the next unless it raises. -/
def andThen (p : Program ε σ α) (next : α → Program ε σ β) : Program ε σ β := fun s =>
  match p s with
  | (.ok a, s') => next a s'
  | (.error e, s') => (.error e, s')

/-- The transaction `i`.  One that changes nothing holds no lock and is nobody's victim. -/
def transaction [DecidableEq ι] [DecidableEq σ] (deadlock : ε) (i : ι) (body : Program ε σ α) :
    Program ε (World ι σ) α := fun w =>
  if w.victim = some i ∧ (body w.stored).2 ≠ w.stored then
    (.error deadlock, { w with victim := none })
  else ((body w.stored).1, { w with stored := (body w.stored).2 })

/-- The program once more, up to `n` times, as long as it raises what will pass. -/
def retry (passes : ε → Bool) (p : Program ε σ α) : Nat → Program ε σ α
  | 0, s => p s
  | n + 1, s =>
      match p s with
      | (.ok a, s') => (.ok a, s')
      | (.error e, s') => if passes e then retry passes p n s' else (.error e, s')

/-! ### What a retry leaves as it is -/

/-- The program never raises what is tried again. -/
def Settled (passes : ε → Bool) (p : Program ε σ α) : Prop :=
  ∀ s e, (p s).1 = .error e → passes e = false

theorem Settled.andThen {passes : ε → Bool} {p : Program ε σ α} {next : α → Program ε σ β}
    (hp : Settled passes p) (hnext : ∀ a, Settled passes (next a)) :
    Settled passes (andThen p next) := by
  intro s e he
  unfold Retry.andThen at he
  split at he
  · rename_i a s' _
    exact hnext a s' e he
  · rename_i e' s' heq
    obtain rfl := Except.error.inj he
    exact hp s e' (by rw [heq])

theorem retry_of_settled {passes : ε → Bool} {p : Program ε σ α} {s : σ}
    (h : ∀ e, (p s).1 = .error e → passes e = false) (n : Nat) : retry passes p n s = p s := by
  cases n with
  | zero => rfl
  | succ n =>
      unfold retry
      split
      · rename_i a s' heq
        exact heq.symm
      · rename_i e s' heq
        rw [if_neg (by simp [h e (by rw [heq])]), heq]

theorem retry_of_passing {passes : ε → Bool} {p : Program ε σ α} {s s' : σ} {e : ε}
    (h : p s = (.error e, s')) (he : passes e = true) (n : Nat) :
    retry passes p (n + 1) s = retry passes p n s' := by
  rw [retry, h]
  exact if_pos he

/-! ### Programs the victim is not part of -/

/-- With the victim `v`, `p` is `f`, and the victim is still to come. -/
def Spares (v : Option ι) (p : Program ε (World ι σ) α) (f : Program ε σ α) : Prop :=
  ∀ s, p ⟨s, v⟩ = ((f s).1, ⟨(f s).2, v⟩)

theorem Spares.pure (v : Option ι) (x : Except ε α) :
    Spares (σ := σ) v (fun w => (x, w)) fun s => (x, s) :=
  fun _ => rfl

theorem Spares.andThen {v : Option ι} {p : Program ε (World ι σ) α} {f : Program ε σ α}
    {next : α → Program ε (World ι σ) β} {g : α → Program ε σ β} (h : Spares v p f)
    (hnext : ∀ a, Spares v (next a) (g a)) : Spares v (andThen p next) (andThen f g) := by
  intro s
  unfold Retry.andThen
  rw [h s]
  generalize f s = y
  obtain ⟨r, s'⟩ := y
  cases r with
  | error e => rfl
  | ok a => exact hnext a s'

/-- A program that looks at what is stored before it goes on. -/
theorem Spares.read {v : Option ι} {p : σ → Program ε (World ι σ) α} {f : σ → Program ε σ α}
    (h : ∀ s, Spares v (p s) (f s)) : Spares v (fun w => p w.stored w) fun s => f s s :=
  fun s => h s s

theorem Spares.retry {v : Option ι} {p : Program ε (World ι σ) α} {f : Program ε σ α}
    {passes : ε → Bool} (h : Spares v p f) (hf : Settled passes f) (n : Nat) :
    Spares v (retry passes p n) f := by
  intro s
  rw [retry_of_settled, h s]
  intro e he
  rw [h s] at he
  exact hf s e he

theorem Spares.transaction [DecidableEq ι] [DecidableEq σ] {v : Option ι} {i : ι}
    (hne : v ≠ some i) (deadlock : ε) (body : Program ε σ α) :
    Spares v (transaction deadlock i body) body :=
  fun _ => if_neg fun hhit => hne hhit.1

/-! ### Surviving a deadlock -/

/-- A run that may have had the victim `v` ends as one without, and stores the same. -/
structure Ends (v : Option ι) (x : Except ε α × World ι σ) (y : Except ε α × σ) : Prop where
  result : x.1 = y.1
  stored : x.2.stored = y.2
  /-- There is one victim at most. -/
  victim : x.2.victim = none ∨ x.2.victim = v

/-- `p` does what `f` does, with the victim `v` as without one. -/
def Survives (v : Option ι) (p : Program ε (World ι σ) α) (f : Program ε σ α) : Prop :=
  ∀ w, w.victim = none ∨ w.victim = v → Ends v (p w) (f w.stored)

variable {v : Option ι} {p : Program ε (World ι σ) α} {f : Program ε σ α} {passes : ε → Bool}

theorem Survives.of_spares (h : Spares v p f) (hcalm : Spares none p f) : Survives v p f := by
  rintro ⟨s, v'⟩ hw
  rcases hw with hnone | hsame
  · obtain rfl : v' = none := hnone
    rw [hcalm s]
    exact ⟨rfl, rfl, Or.inl rfl⟩
  · obtain rfl : v' = v := hsame
    rw [h s]
    exact ⟨rfl, rfl, Or.inr rfl⟩

theorem Survives.andThen {next : α → Program ε (World ι σ) β} {g : α → Program ε σ β}
    (h : Survives v p f) (hnext : ∀ a, Survives v (next a) (g a)) :
    Survives v (andThen p next) (andThen f g) := by
  intro w hw
  obtain ⟨hresult, hstored, hvictim⟩ := h w hw
  unfold Retry.andThen
  generalize hx : p w = x at hresult hstored hvictim
  generalize hy : f w.stored = y at hresult hstored
  obtain ⟨r, w'⟩ := x
  obtain ⟨r', s'⟩ := y
  obtain rfl : r = r' := hresult
  obtain rfl : w'.stored = s' := hstored
  cases r with
  | error e => exact ⟨rfl, rfl, hvictim⟩
  | ok a =>
      exact hnext a w' hvictim

/-- What comes after a program the victim is not part of. -/
theorem ends_andThen {next : α → Program ε (World ι σ) β} {g : α → Program ε σ β}
    (h : Spares v p f) {s : σ}
    (hnext : ∀ a, (f s).1 = .ok a → Ends v (next a ⟨(f s).2, v⟩) (g a (f s).2)) :
    Ends v (Retry.andThen p next ⟨s, v⟩) (Retry.andThen f g s) := by
  unfold Retry.andThen
  rw [h s]
  generalize f s = y at hnext
  obtain ⟨r, s'⟩ := y
  cases r with
  | error e => exact ⟨rfl, rfl, Or.inr rfl⟩
  | ok a => exact hnext a rfl

/-- The run ends as it does without a deadlock, or it has undone what it did. -/
def EndsOrUndone (passes : ε → Bool) (p : Program ε (World ι σ) α) (f : Program ε σ α)
    (w : World ι σ) : Prop :=
  Ends w.victim (p w) (f w.stored) ∨
    w.victim ≠ none ∧ ∃ e, passes e = true ∧ p w = (.error e, { w with victim := none })

/-- The run is made once more at most: nothing is left to go wrong by then. -/
theorem ends_retry {w : World ι σ} (h : EndsOrUndone passes p f w)
    (hcalm : Ends none (p { w with victim := none }) (f w.stored))
    (hf : ∀ e, (f w.stored).1 = .error e → passes e = false) (n : Nat) :
    Ends w.victim (Retry.retry passes p (n + 1) w) (f w.stored) := by
  have hsettled : ∀ {v w'}, Ends v (p w') (f w.stored) →
      ∀ e, (p w').1 = .error e → passes e = false := by
    intro v w' hend e he
    refine hf e ?_
    rw [← hend.result, he]
  rcases h with hend | ⟨-, e, he, hundone⟩
  · rw [retry_of_settled (hsettled hend)]
    exact hend
  · rw [retry_of_passing hundone he, retry_of_settled (hsettled hcalm)]
    refine ⟨hcalm.result, hcalm.stored, Or.inl ?_⟩
    rcases hcalm.victim with hnone | hnone
    · exact hnone
    · exact hnone

theorem Survives.retry_undone (h : ∀ w, EndsOrUndone passes p f w) (hf : Settled passes f)
    (n : Nat) : Survives v (Retry.retry passes p (n + 1)) f := by
  intro w hw
  have hcalm : Ends none (p { w with victim := none }) (f w.stored) := by
    rcases h { w with victim := none } with hend | ⟨hnone, -⟩
    · exact hend
    · exact absurd rfl hnone
  obtain ⟨hresult, hstored, hvictim⟩ := ends_retry (h w) hcalm (hf w.stored) n
  refine ⟨hresult, hstored, ?_⟩
  rcases hvictim with hnone | hsame
  · exact Or.inl hnone
  · rwa [hsame]

section

variable [DecidableEq ι] [DecidableEq σ] (deadlock : ε) (i : ι) (body : Program ε σ α)

theorem transaction_victim {w : World ι σ} (hv : w.victim = some i)
    (hwrites : (body w.stored).2 ≠ w.stored) :
    transaction deadlock i body w = (.error deadlock, { w with victim := none }) :=
  if_pos ⟨hv, hwrites⟩

theorem transaction_spared {w : World ι σ}
    (h : w.victim ≠ some i ∨ (body w.stored).2 = w.stored) :
    transaction deadlock i body w =
      ((body w.stored).1, { w with stored := (body w.stored).2 }) := by
  refine if_neg fun hhit => ?_
  rcases h with hne | hidle
  · exact hne hhit.1
  · exact hhit.2 hidle

theorem ends_of_spared {w : World ι σ}
    (h : w.victim ≠ some i ∨ (body w.stored).2 = w.stored) :
    Ends w.victim (Retry.transaction deadlock i body w) (body w.stored) := by
  rw [transaction_spared deadlock i body h]
  exact ⟨rfl, rfl, Or.inr rfl⟩

/-- A program is undone when its first transaction is the victim. -/
theorem endsOrUndone_andThen {next : α → Program ε (World ι σ) β} {g : α → Program ε σ β}
    (hd : passes deadlock = true) (hnext : ∀ v a, Survives v (next a) (g a)) (w : World ι σ) :
    EndsOrUndone passes (Retry.andThen (Retry.transaction deadlock i body) next)
      (Retry.andThen body g) w := by
  by_cases hhit : w.victim = some i ∧ (body w.stored).2 ≠ w.stored
  · refine Or.inr ⟨by simp [hhit.1], deadlock, hd, ?_⟩
    unfold Retry.andThen
    rw [transaction_victim deadlock i body hhit.1 hhit.2]
  · rw [not_and_or, not_not] at hhit
    refine Or.inl ?_
    unfold Retry.andThen
    rw [transaction_spared deadlock i body hhit]
    generalize body w.stored = y
    obtain ⟨r, s'⟩ := y
    cases r with
    | error e => exact ⟨rfl, rfl, Or.inr rfl⟩
    | ok a => exact hnext w.victim a { w with stored := s' } (Or.inr rfl)

theorem endsOrUndone_transaction (hd : passes deadlock = true) (w : World ι σ) :
    EndsOrUndone passes (Retry.transaction deadlock i body) body w := by
  by_cases hhit : w.victim = some i ∧ (body w.stored).2 ≠ w.stored
  · exact Or.inr ⟨by simp [hhit.1], deadlock, hd, transaction_victim deadlock i body hhit.1 hhit.2⟩
  · rw [not_and_or, not_not] at hhit
    exact Or.inl (ends_of_spared deadlock i body hhit)

/-- Whichever transaction is the victim, one that is retried by itself is not missed. -/
theorem Survives.retry_transaction (hd : passes deadlock = true) (hbody : Settled passes body)
    (n : Nat) : Survives v (Retry.retry passes (Retry.transaction deadlock i body) (n + 1)) body :=
  Survives.retry_undone (endsOrUndone_transaction deadlock i body hd) hbody n

end

end Retry
