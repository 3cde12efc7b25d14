import Mathlib.Algebra.Order.BigOperators.Group.List
import Mathlib.Algebra.Order.Field.Basic
import Mathlib.Order.Interval.Set.Basic
import Mathlib.Tactic.Ring

/-!
# Staying in an interval

A point that is pulled towards another one, by at most the way there, and the mean of some
points, stay in every interval that the points are in.
-/

namespace Interval

variable {K : Type*} [Field K] [LinearOrder K] [IsStrictOrderedRing K] {lo hi : K}

theorem pull_mem {x y c : K} (hx : x ∈ Set.Icc lo hi) (hy : y ∈ Set.Icc lo hi) (hc : 0 ≤ c)
    (hc' : c ≤ 1) : x + c * (y - x) ∈ Set.Icc lo hi := by
  have hsplit (z : K) : z = (1 - c) * z + c * z := by ring
  have hpull : x + c * (y - x) = (1 - c) * x + c * y := by ring
  have hrest : 0 ≤ 1 - c := sub_nonneg.mpr hc'
  rw [hpull, Set.mem_Icc]
  constructor
  · rw [hsplit lo]
    exact add_le_add (mul_le_mul_of_nonneg_left hx.1 hrest) (mul_le_mul_of_nonneg_left hy.1 hc)
  · rw [hsplit hi]
    exact add_le_add (mul_le_mul_of_nonneg_left hx.2 hrest) (mul_le_mul_of_nonneg_left hy.2 hc)

theorem mean_mem {l : List K} (hl : l ≠ []) (h : ∀ x ∈ l, x ∈ Set.Icc lo hi) :
    l.sum / l.length ∈ Set.Icc lo hi := by
  have hlength : (0 : K) < l.length := Nat.cast_pos.mpr (List.length_pos_of_ne_nil hl)
  rw [Set.mem_Icc, le_div_iff₀ hlength, div_le_iff₀ hlength, mul_comm lo, mul_comm hi,
    ← nsmul_eq_mul, ← nsmul_eq_mul]
  exact ⟨List.card_nsmul_le_sum l lo fun x hx => (h x hx).1,
    List.sum_le_card_nsmul l hi fun x hx => (h x hx).2⟩

end Interval
