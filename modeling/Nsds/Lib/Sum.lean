import Mathlib.Algebra.BigOperators.Group.Finset.Basic

/-!
# Finite sums of naturals

What happens to a sum over all parties when one party changes its share.
-/

namespace Sum

variable {ι : Type} [Fintype ι] {f g : ι → ℕ}

theorem sum_eq_add [DecidableEq ι] (a : ι) (d : ℕ) (ha : f a = g a + d)
    (h : ∀ q, q ≠ a → f q = g q) :
    ∑ q, f q = ∑ q, g q + d := by
  have hrest : ∑ q ∈ Finset.univ.erase a, f q = ∑ q ∈ Finset.univ.erase a, g q :=
    Finset.sum_congr rfl fun q hq => h q (Finset.ne_of_mem_erase hq)
  rw [← Finset.add_sum_erase _ f (Finset.mem_univ a),
    ← Finset.add_sum_erase _ g (Finset.mem_univ a), ha, hrest]
  omega

theorem eq_zero_of_sum_eq_zero (h : ∑ q, f q = 0) (a : ι) : f a = 0 :=
  Finset.sum_eq_zero_iff.mp h a (Finset.mem_univ a)

end Sum
