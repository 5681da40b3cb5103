/-
Weights that fade.

What is counted fades from the moment it is marked: after `a` its weight is `w a`, and fading
for `a` and then for `b` is fading for `a + b`.  The total of a list of marks therefore fades as
a whole, which is what allows it to be stored once and aged instead of being added up again.
Aging goes by whole periods; `aged_lower` and `aged_upper` say how far that is from the total,
when what was stored was off by no more than `err`.
-/
import Mathlib.Analysis.SpecialFunctions.Pow.Real

namespace Decay

variable {K : Type*} [Field K] [LinearOrder K]

/-- What is left after some time; after a `period` it is `rate`. -/
structure Fading (w : Int → K) (period : Int) (rate : K) : Prop where
  add : ∀ a b, w (a + b) = w a * w b
  pos : ∀ a, 0 < w a
  le_one : ∀ a, 0 ≤ a → w a ≤ 1
  period_pos : 0 < period
  period : w period = rate

/-- The weight of all marks at `t`. -/
def total (w : Int → K) (t : Int) (marks : List Int) : K := (marks.map fun m => w (t - m)).sum

variable {w : Int → K} {period : Int} {rate : K} {marks : List Int} {t u : Int}

namespace Fading

theorem zero (h : Fading w period rate) : w 0 = 1 := by
  have hadd : w 0 = w 0 * w 0 := h.add 0 0
  exact mul_left_cancel₀ (h.pos 0).ne' (hadd.symm.trans (mul_one _).symm)

theorem rate_pos (h : Fading w period rate) : 0 < rate := h.period ▸ h.pos period

theorem rate_le_one (h : Fading w period rate) : rate ≤ 1 :=
  h.period ▸ h.le_one period h.period_pos.le

theorem periods (h : Fading w period rate) (n : Nat) : w (n * period) = rate ^ n := by
  induction n with
  | zero => simpa using h.zero
  | succ n ih =>
      have hsucc : ((n + 1 : Nat) : Int) * period = n * period + period := by
        rw [Nat.cast_succ, Int.add_mul, Int.one_mul]
      rw [hsucc, h.add, ih, h.period, pow_succ]

/-- Whole periods are counted by a natural number. -/
theorem whole (h : Fading w period rate) {a : Int} (ha : 0 ≤ a) :
    ∃ n : Nat, a.tdiv period = n ∧ a = n * period + a % period := by
  obtain ⟨n, hn⟩ := Int.eq_ofNat_of_zero_le (Int.ediv_nonneg ha h.period_pos.le)
  refine ⟨n, (Int.tdiv_eq_ediv_of_nonneg ha).trans hn, ?_⟩
  rw [← hn, Int.ediv_mul_add_emod]

/-- A total fades like its marks. -/
theorem total_later (h : Fading w period rate) (t s : Int) (marks : List Int) :
    total w (t + s) marks = w s * total w t marks := by
  unfold total
  rw [← List.sum_map_mul_left]
  congr 1
  refine List.map_congr_left fun m _ => ?_
  rw [show t + s - m = s + (t - m) by omega, h.add]

/-- The total ages by whole periods, and then by the rest. -/
theorem total_aged (h : Fading w period rate) (hut : u ≤ t) (marks : List Int) :
    total w t marks = total w u marks * rate ^ (t - u).tdiv period * w ((t - u) % period) := by
  obtain ⟨n, hn, hsplit⟩ := h.whole (Int.sub_nonneg.mpr hut)
  have hage : total w t marks = w (t - u) * total w u marks := by
    rw [← h.total_later, show u + (t - u) = t by omega]
  rw [hage, hn, zpow_natCast, ← h.periods, mul_comm, mul_assoc, ← h.add, ← hsplit]

variable [IsStrictOrderedRing K]

/-- In less than a period, no more is lost than in a period. -/
theorem rate_le (h : Fading w period rate) {a : Int} (hle : a ≤ period) : rate ≤ w a := by
  have hsum : w period = w (period - a) * w a := by
    rw [← h.add, Int.sub_add_cancel]
  rw [← h.period, hsum]
  exact mul_le_of_le_one_left (h.pos a).le (h.le_one _ (by omega))

theorem total_nonneg (h : Fading w period rate) (t : Int) (marks : List Int) :
    0 ≤ total w t marks := by
  refine List.sum_nonneg ?_
  intro x hx
  obtain ⟨m, -, rfl⟩ := List.mem_map.mp hx
  exact (h.pos _).le

/-! ### Aging what was stored -/

/-- The factor that whole periods leave. -/
theorem factor_pos (h : Fading w period rate) (a : Int) : 0 < rate ^ a.tdiv period :=
  zpow_pos h.rate_pos _

theorem factor_le_one (h : Fading w period rate) (hut : u ≤ t) :
    rate ^ (t - u).tdiv period ≤ 1 := by
  obtain ⟨n, hn, -⟩ := h.whole (Int.sub_nonneg.mpr hut)
  rw [hn, zpow_natCast]
  exact pow_le_one₀ h.rate_pos.le h.rate_le_one

/-- What is stored ages no faster than the total. -/
theorem aged_lower (h : Fading w period rate) {stored err : K} (hut : u ≤ t)
    (hstored : |stored - total w u marks| ≤ err) :
    total w t marks - err ≤ stored * rate ^ (t - u).tdiv period := by
  have hfactor := h.factor_pos (t - u)
  have herr : 0 ≤ err := (abs_nonneg _).trans hstored
  have hrest : w ((t - u) % period) ≤ 1 := h.le_one _ (Int.emod_nonneg _ h.period_pos.ne')
  have hfaded : total w t marks ≤ total w u marks * rate ^ (t - u).tdiv period := by
    rw [h.total_aged hut]
    exact mul_le_of_le_one_right (mul_nonneg (h.total_nonneg ..) hfactor.le) hrest
  have hclose : total w u marks - err ≤ stored := by
    linarith [(abs_le.mp hstored).1]
  calc total w t marks - err
      ≤ total w u marks * rate ^ (t - u).tdiv period - err * rate ^ (t - u).tdiv period := by
        linarith [mul_le_of_le_one_right herr (h.factor_le_one hut)]
    _ = (total w u marks - err) * rate ^ (t - u).tdiv period := by ring
    _ ≤ stored * rate ^ (t - u).tdiv period := mul_le_mul_of_nonneg_right hclose hfactor.le

/-- What is stored is less than a period behind the total. -/
theorem aged_upper (h : Fading w period rate) {stored err : K} (hut : u ≤ t)
    (hstored : |stored - total w u marks| ≤ err) :
    stored * rate ^ (t - u).tdiv period ≤ total w t marks / rate + err := by
  have hfactor := h.factor_pos (t - u)
  have herr : 0 ≤ err := (abs_nonneg _).trans hstored
  have hrest : rate ≤ w ((t - u) % period) := h.rate_le (Int.emod_lt_of_pos _ h.period_pos).le
  have hfaded : total w u marks * rate ^ (t - u).tdiv period ≤ total w t marks / rate := by
    rw [le_div_iff₀ h.rate_pos, h.total_aged hut]
    exact mul_le_mul_of_nonneg_left hrest (mul_nonneg (h.total_nonneg ..) hfactor.le)
  have hclose : stored ≤ total w u marks + err := by
    linarith [(abs_le.mp hstored).2]
  calc stored * rate ^ (t - u).tdiv period
      ≤ (total w u marks + err) * rate ^ (t - u).tdiv period :=
        mul_le_mul_of_nonneg_right hclose hfactor.le
    _ = total w u marks * rate ^ (t - u).tdiv period + err * rate ^ (t - u).tdiv period := by ring
    _ ≤ total w t marks / rate + err := by
        linarith [mul_le_of_le_one_right herr (h.factor_le_one hut)]

end Fading

/-- Adding up what is nearly the weight of each mark. -/
theorem total_close [IsStrictOrderedRing K] {f : Int → K} {err : K}
    (hf : ∀ a, |f a - w a| ≤ err) (t : Int)
    (marks : List Int) :
    |(marks.map fun m => f (t - m)).sum - total w t marks| ≤ marks.length * err := by
  induction marks with
  | nil => simp [total]
  | cons m marks ih =>
      unfold total at ih ⊢
      simp only [List.map_cons, List.sum_cons, List.length_cons, Nat.cast_add, Nat.cast_one]
      rw [add_sub_add_comm, add_mul, one_mul, add_comm _ err]
      exact (abs_add_le _ _).trans (add_le_add (hf _) ih)

/-! ### Real weights -/

/-- There is such a weight for every rate. -/
theorem fading_rpow {period : Int} {rate : ℝ} (hperiod : 0 < period) (hpos : 0 < rate)
    (hle : rate ≤ 1) : Fading (fun a : Int => rate ^ ((a : ℝ) / period)) period rate where
  add a b := by
    rw [← Real.rpow_add hpos, Int.cast_add, add_div]
  pos a := Real.rpow_pos_of_pos hpos _
  le_one a ha := by
    refine Real.rpow_le_one hpos.le hle (div_nonneg ?_ ?_)
    · exact_mod_cast ha
    · exact_mod_cast hperiod.le
  period_pos := hperiod
  period := by
    have hne : (period : ℝ) ≠ 0 := by exact_mod_cast hperiod.ne'
    rw [div_self hne, Real.rpow_one]

end Decay
