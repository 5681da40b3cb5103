/-
The lower case of ASCII, character by character.
-/
import Mathlib

namespace AsciiCase

/-- Nothing but itself becomes what is no letter. -/
theorem toLower_eq_iff {c d : Char} (hd : d.isAlpha = false) : c.toLower = d ↔ c = d := by
  constructor
  · intro h
    by_cases hc : c.isUpper = true
    · have halpha : c.toLower.isAlpha = true := by
        rw [Char.isAlpha_toLower_eq_isAlpha, Char.isAlpha, hc, Bool.true_or]
      rw [h, hd] at halpha
      exact absurd halpha Bool.false_ne_true
    · rwa [Char.toLower_eq_of_not_isUpper hc] at h
  · intro h
    have hupper : ¬d.isUpper = true := by
      intro hupper
      rw [Char.isAlpha, hupper, Bool.true_or] at hd
      exact Bool.false_ne_true hd.symm
    rw [h, Char.toLower_eq_of_not_isUpper hupper]

theorem toLower_ascii {c : Char} (h : c.toNat < 128) : c.toLower.toNat < 128 := by
  by_cases hc : c.isUpper = true
  · have hto : c.toNat ≤ 90 := by
      have hrange : 65 ≤ c.val.toNat ∧ c.val.toNat ≤ 90 := by
        simpa [Char.isUpper, UInt32.le_iff_toNat_le] using hc
      exact hrange.2
    rw [Char.toLower_eq_of_isUpper hc, Char.toNat_ofNat, if_pos (Or.inl (by omega))]
    omega
  · rwa [Char.toLower_eq_of_not_isUpper hc]

def lower (s : String) : String := String.ofList (s.toList.map Char.toLower)

theorem lower_lower (s : String) : lower (lower s) = lower s := by
  unfold lower
  rw [String.toList_ofList, List.map_map]
  congr 2
  funext c
  exact Char.toLower_toLower_eq_toLower c

end AsciiCase
