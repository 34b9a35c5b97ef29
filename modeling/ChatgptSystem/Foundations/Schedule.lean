import Mathlib.Algebra.Order.Floor.Ring
import Mathlib.Tactic.Linarith
import Mathlib.Tactic.Positivity
import Mathlib.Tactic.Ring

/-!
# Schedules

When something is to happen, and how far a motion has come by then.

* `trappingSub` — the subtraction of unsigned numbers that stops the program where it would go
  below zero;
* `smoothstep` — the cubic easing, which takes the unit interval to itself without turning back;
* `roundAway` — rounding to the nearest integer.
-/

namespace Schedule

/-! ## Waiting -/

/-- `a - b` of unsigned numbers, or the trap. -/
def trappingSub (a b : ℕ) : Option ℕ := if b ≤ a then some (a - b) else none

theorem trappingSub_of_le {a b : ℕ} (h : b ≤ a) : trappingSub a b = some (a - b) := if_pos h

/-! ## Easing -/

section Easing

variable {K : Type} [Field K] [LinearOrder K] [IsStrictOrderedRing K]

def smoothstep (t : K) : K := t * t * (3 - 2 * t)

theorem smoothstep_nonneg {t : K} (h : t ≤ 1) : 0 ≤ smoothstep t :=
  mul_nonneg (mul_self_nonneg t) (by linarith)

theorem smoothstep_mono {s t : K} (hs : 0 ≤ s) (hle : s ≤ t) (ht : t ≤ 1) :
    smoothstep s ≤ smoothstep t := by
  have hfactor : smoothstep t - smoothstep s =
      (t - s) * (2 * (t * (1 - t)) + 2 * (s * (1 - s)) + t * (1 - s) + s * (1 - t)) := by
    simp only [smoothstep]
    ring
  have hpos : 0 ≤ t := hs.trans hle
  have hs' : 0 ≤ 1 - s := by linarith
  have ht' : 0 ≤ 1 - t := by linarith
  refine sub_nonneg.mp (hfactor ▸ mul_nonneg (sub_nonneg.mpr hle) ?_)
  positivity

theorem smoothstep_le_one {t : K} (hpos : 0 ≤ t) (h : t ≤ 1) : smoothstep t ≤ 1 := by
  have hend : smoothstep (1 : K) = 1 := by
    rw [smoothstep]
    ring
  exact hend ▸ smoothstep_mono hpos h le_rfl

/-- The nearest integer; halves are rounded away from zero. -/
def roundAway [FloorRing K] (x : K) : ℤ := if 0 ≤ x then ⌊x + 1 / 2⌋ else ⌈x - 1 / 2⌉

end Easing

end Schedule
