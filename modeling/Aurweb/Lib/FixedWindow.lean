/-
A counter that begins again.

A window begins with a hit and takes the hits of the next `span` units of time; the first hit
after them begins a new one.  What such a counter says of a hit is how many its window has by
then, so it never says more than there were in the last `span` units (`count_le`).  Two windows
together can touch an interval of that length, the one that ends in it and the one that begins
in it, and each lets the limit pass.  An interval that reaches into the later one begins after the
first hit of the earlier one, so it may see twice the limit less one (`Counted.twice`).
-/
import Mathlib.Data.List.Count

namespace FixedWindow

structure Window where
  start : Int
  count : Int
  deriving DecidableEq, Repr

/-- The window of the next hit, with that hit. -/
def hit (span : Int) (w : Option Window) (now : Int) : Window :=
  match w with
  | none => ⟨now, 1⟩
  | some w => if w.start + span ≤ now then ⟨now, 1⟩ else ⟨w.start, w.count + 1⟩

/-- The hits with their times, and whether they exceeded the limit. -/
abbrev Log := List (Int × Bool)

/-- The hits since `t` within the limit. -/
def passedSince (t : Int) (log : Log) : Nat := log.countP fun h => decide (t ≤ h.1) && !h.2

/-- Those of them before `u`. -/
def passed (t u : Int) (log : Log) : Nat :=
  log.countP fun h => decide (t ≤ h.1) && decide (h.1 < u) && !h.2

/-- The hits of the window, and those before it. -/
structure Split (span limit : Int) (w : Window) (old cur : Log) : Prop where
  count : (cur.length : Int) = w.count
  head : ∃ rest, cur = (w.start, decide (limit < 1)) :: rest
  pos : 0 < w.count
  since : ∀ h ∈ cur, w.start ≤ h.1
  before : ∀ h ∈ old, h.1 ≤ w.start
  /-- Of the hits of the window the first ones passed. -/
  first : (cur.countP fun h => !h.2) = (min w.count limit).toNat
  /-- Of the hits before it, those of one window are near enough. -/
  near : ∀ t, w.start < t + span → passedSince t old ≤ limit.toNat - 1

/-- What is true of a counter at a time, and of the hits it has seen. -/
structure Counted (span limit clock : Int) (w : Option Window) (log : Log) : Prop where
  past : ∀ h ∈ log, h.1 ≤ clock
  twice : ∀ t, passed t (t + span) log ≤ 2 * limit.toNat - 1
  idle : w = none → log = []
  running : ∀ window, w = some window →
    window.start ≤ clock ∧ ∃ old cur, log = old ++ cur ∧ Split span limit window old cur

variable {span limit clock now t u : Int} {w : Option Window} {window : Window}
  {log log' old cur : Log}

/-! ### Counting -/

theorem passedSince_append (t : Int) (log log' : Log) :
    passedSince t (log ++ log') = passedSince t log + passedSince t log' := List.countP_append ..

theorem passed_append (t u : Int) (log log' : Log) :
    passed t u (log ++ log') = passed t u log + passed t u log' := List.countP_append ..

theorem passed_le_passedSince (t u : Int) (log : Log) : passed t u log ≤ passedSince t log := by
  refine List.countP_mono_left fun h _ hpassed => ?_
  simp only [Bool.and_eq_true, decide_eq_true_eq] at hpassed ⊢
  exact ⟨hpassed.1.1, hpassed.2⟩

theorem passedSince_le (t : Int) (log : Log) : passedSince t log ≤ log.countP fun h => !h.2 := by
  refine List.countP_mono_left fun h _ hpassed => ?_
  rw [Bool.and_eq_true] at hpassed
  exact hpassed.2

theorem passedSince_eq_zero (h : ∀ h ∈ log, h.1 < t) : passedSince t log = 0 := by
  refine List.countP_eq_zero.mpr fun x hx hpassed => ?_
  simp only [Bool.and_eq_true, decide_eq_true_eq] at hpassed
  have := h x hx
  omega

theorem passed_singleton_eq_zero {h : Int × Bool} (hout : ¬ (t ≤ h.1 ∧ h.1 < u)) :
    passed t u [h] = 0 := by
  unfold passed
  rw [List.countP_singleton, if_neg]
  simp only [Bool.and_eq_true, decide_eq_true_eq]
  exact fun hin => hout hin.1

/-! ### One hit -/

namespace Split

/-- A new window. -/
theorem begin (hold : ∀ h ∈ old, h.1 ≤ now)
    (hnear : ∀ t, now < t + span → passedSince t old ≤ limit.toNat - 1) :
    Split span limit ⟨now, 1⟩ old [(now, decide (limit < 1))] := by
  refine ⟨rfl, ⟨[], rfl⟩, Int.one_pos, ?_, hold, ?_, hnear⟩
  · intro x hx
    exact Int.le_of_eq (congrArg (·.1) (List.mem_singleton.mp hx).symm)
  · by_cases hlimit : limit < 1
    · have hmin : (min 1 limit).toNat = 0 := by omega
      simp [hlimit, hmin]
    · have hmin : (min 1 limit).toNat = 1 := by omega
      simp [hlimit, hmin]

/-- After the first hit of a window. -/
theorem passedSince_cur (h : Split span limit window old cur) (ht : window.start < t) :
    passedSince t cur ≤ limit.toNat - 1 := by
  obtain ⟨rest, rfl⟩ := h.head
  have hfirst := h.first
  have hskip : passedSince t ((window.start, decide (limit < 1)) :: rest) = passedSince t rest :=
    List.countP_cons_of_neg (by simp; omega)
  have hrest := passedSince_le t rest
  have hpos := h.pos
  rw [hskip]
  by_cases hlimit : limit < 1
  · rw [List.countP_cons_of_neg (by simpa using hlimit)] at hfirst
    omega
  · rw [List.countP_cons_of_pos (by simpa using hlimit)] at hfirst
    omega

/-- A new window, when the last one is over. -/
theorem restart (h : Split span limit window old cur) (hover : window.start + span ≤ now)
    (hold : ∀ h ∈ old ++ cur, h.1 ≤ now) :
    Split span limit ⟨now, 1⟩ (old ++ cur) [(now, decide (limit < 1))] := by
  refine begin hold fun t ht => ?_
  have hnone : passedSince t old = 0 := by
    refine passedSince_eq_zero fun x hx => ?_
    have := h.before x hx
    omega
  have hcur : passedSince t cur ≤ limit.toNat - 1 := h.passedSince_cur (by omega)
  rw [passedSince_append, hnone]
  omega

/-- One more hit of a window. -/
theorem count_succ (h : Split span limit window old cur) (hstart : window.start ≤ now) :
    Split span limit ⟨window.start, window.count + 1⟩ old
      (cur ++ [(now, decide (limit < window.count + 1))]) := by
  refine ⟨?_, ?_, ?_, ?_, h.before, ?_, h.near⟩
  · rw [List.length_append, List.length_singleton]
    have := h.count
    push_cast
    omega
  · obtain ⟨rest, rfl⟩ := h.head
    exact ⟨rest ++ [(now, decide (limit < window.count + 1))], rfl⟩
  · exact Int.lt_trans h.pos (Int.lt_succ _)
  · intro x hx
    rcases List.mem_append.mp hx with hx | hx
    · exact h.since x hx
    · rw [List.mem_singleton.mp hx]
      exact hstart
  · rw [List.countP_append, h.first]
    have := h.pos
    by_cases hlimit : limit < window.count + 1
    · have hmin : (min (window.count + 1) limit).toNat = (min window.count limit).toNat := by omega
      simp [hlimit, hmin]
    · have hmin : (min (window.count + 1) limit).toNat = (min window.count limit).toNat + 1 := by
        omega
      simp [hlimit, hmin]

/-- An interval that reaches into the window. -/
theorem passedSince_le_twice (h : Split span limit window old cur) (ht : window.start < t + span) :
    passedSince t (old ++ cur) ≤ 2 * limit.toNat - 1 := by
  have hnear := h.near t ht
  have hcur := passedSince_le t cur
  have hfirst := h.first
  rw [passedSince_append]
  omega

end Split

theorem counted_nil (span limit clock : Int) : Counted span limit clock none [] where
  past := by simp
  twice _ := Nat.zero_le _
  idle _ := rfl
  running := by simp

namespace Counted

theorem later (h : Counted span limit clock w log) (hle : clock ≤ now) :
    Counted span limit now w log where
  past x hx := Int.le_trans (h.past x hx) hle
  twice := h.twice
  idle := h.idle
  running window hw := ⟨Int.le_trans (h.running window hw).1 hle, (h.running window hw).2⟩

/-- How the window with the hit splits the hits. -/
theorem split_hit (h : Counted span limit clock w log) (hle : clock ≤ now) :
    (hit span w now).start ≤ now ∧ ∃ old cur,
      log ++ [(now, decide (limit < (hit span w now).count))] = old ++ cur ∧
        Split span limit (hit span w now) old cur := by
  cases hw : w with
  | none =>
      rw [h.idle hw]
      refine ⟨Int.le_refl _, [], _, rfl, Split.begin ?_ fun t _ => Nat.zero_le _⟩
      intro x hx
      exact absurd hx List.not_mem_nil
  | some window =>
      obtain ⟨hstart, old, cur, rfl, hsplit⟩ := h.running window hw
      unfold hit
      dsimp only
      split
      · next hover =>
          refine ⟨Int.le_refl _, old ++ cur, _, rfl, hsplit.restart hover ?_⟩
          exact fun x hx => Int.le_trans (h.past x hx) hle
      · refine ⟨Int.le_trans hstart hle, old, _, List.append_assoc .., ?_⟩
        exact hsplit.count_succ (Int.le_trans hstart hle)

theorem next (h : Counted span limit clock w log) (hle : clock ≤ now) :
    Counted span limit now (some (hit span w now))
      (log ++ [(now, decide (limit < (hit span w now).count))]) := by
  obtain ⟨hstart, old, cur, heq, hsplit⟩ := h.split_hit hle
  refine ⟨?_, ?_, ?_, ?_⟩
  · intro x hx
    rcases List.mem_append.mp hx with hx | hx
    · exact Int.le_trans (h.past x hx) hle
    · exact Int.le_of_eq (congrArg (·.1) (List.mem_singleton.mp hx))
  · intro t
    by_cases hin : t ≤ now ∧ now < t + span
    · have hle := passed_le_passedSince t (t + span) (old ++ cur)
      have htwice := hsplit.passedSince_le_twice (t := t) (by omega)
      rw [heq]
      omega
    · rw [passed_append, passed_singleton_eq_zero hin]
      exact h.twice t
  · intro hnone
    cases hnone
  · intro window hw
    cases hw
    exact ⟨hstart, old, cur, heq, hsplit⟩

/-- The count of a hit is of hits that are not long ago. -/
theorem count_le (h : Counted span limit clock w log) (hle : clock ≤ now) (hspan : 0 < span) :
    (hit span w now).count ≤
      ((log.countP fun h => decide (now - span < h.1)) + 1 : Nat) := by
  obtain ⟨-, old, cur, heq, hsplit⟩ := h.split_hit hle
  have hyoung : now - span < (hit span w now).start := by
    cases w with
    | none =>
        show now - span < now
        omega
    | some window =>
        unfold hit
        dsimp only
        split
        · show now - span < now
          omega
        · show now - span < window.start
          omega
  have hcur : (cur.countP fun h => decide (now - span < h.1)) = cur.length := by
    refine List.countP_eq_length.mpr fun x hx => decide_eq_true ?_
    have := hsplit.since x hx
    omega
  have hcount := congrArg (List.countP fun h : Int × Bool => decide (now - span < h.1)) heq
  rw [List.countP_append, List.countP_append, hcur, List.countP_singleton] at hcount
  have hlen := hsplit.count
  split at hcount
  · omega
  · omega

end Counted

end FixedWindow
