import Mathlib.Algebra.BigOperators.Group.List.Basic

/-!
# Arrays in slices

An array of `m * n` entries is the concatenation of `m` slices of `n` entries each.
-/

namespace Slices

variable {α : Type}

theorem range_mul (m n : Nat) :
    (List.range m).flatMap (fun r => (List.range n).map (r * n + ·)) = List.range (m * n) := by
  induction m with
  | zero => simp
  | succ m ih =>
    rw [List.range_succ, List.flatMap_append, ih, Nat.succ_mul, List.range_add]
    simp

theorem map_slices (f : Nat → α) (m n : Nat) :
    (List.finRange m).flatMap (fun r => (List.range n).map fun i => f (r.val * n + i)) =
      (List.range (m * n)).map f := by
  have hm : List.range m = (List.finRange m).map Fin.val := List.map_coe_finRange_eq_range.symm
  rw [← range_mul, hm, List.map_flatMap, List.flatMap_map]
  apply List.flatMap_congr
  intro r _
  rw [List.map_map]
  rfl

theorem sum_slices [AddMonoid α] (f : Nat → α) (m n : Nat) :
    ((List.finRange m).map fun r => ((List.range n).map fun i => f (r.val * n + i)).sum).sum =
      ((List.range (m * n)).map f).sum := by
  rw [← map_slices, List.flatMap_def, List.sum_flatten, List.map_map]
  rfl

theorem take_slices (l : List α) (m n : Nat) :
    (List.finRange m).flatMap (fun r => (l.drop (r.val * n)).take n) = l.take (m * n) := by
  induction m with
  | zero => simp
  | succ m ih =>
    rw [List.finRange_succ_last, List.flatMap_append, List.flatMap_map, Nat.succ_mul,
      List.take_add, ← ih]
    simp

end Slices
