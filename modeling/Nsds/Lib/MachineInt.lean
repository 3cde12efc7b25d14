import Mathlib.Algebra.Ring.Int.Defs
import Mathlib.Algebra.Ring.Nat

/-!
# Integers of a fixed width

Numbers of two's complement, where the arithmetic wraps around.
-/

namespace MachineInt

/-- The number of `bits` bits that is the same modulo `2 ^ bits`. -/
def wrap (bits : Nat) (n : Int) : Int := n.bmod (2 ^ bits)

theorem wrap_of_fits {bits : Nat} {n : Int} (hlow : -2 ^ bits ≤ 2 * n) (hhigh : 2 * n < 2 ^ bits) :
    wrap bits n = n := by
  have hcast : ((2 ^ bits : Nat) : Int) = 2 ^ bits := by push_cast; rfl
  exact Int.bmod_eq_of_le (by omega) (by omega)

theorem wrap_of_int {n : Int} (hlow : -2 ^ 31 ≤ n) (hhigh : n < 2 ^ 31) : wrap 32 n = n :=
  wrap_of_fits (by omega) (by omega)

theorem wrap_int_lt (n : Int) : wrap 32 n < 2 ^ 31 := by
  have := Int.bmod_lt (x := n) (m := 2 ^ 32) (by decide)
  unfold wrap
  omega

theorem wrap_wrap (bits : Nat) (n : Int) : wrap bits (wrap bits n) = wrap bits n := Int.bmod_bmod

theorem wrap_int_long (n : Int) : wrap 32 (wrap 64 n) = wrap 32 n :=
  Int.bmod_bmod_of_dvd (by decide)

theorem wrap_wrap_add (bits : Nat) (m n : Int) : wrap bits (wrap bits m + n) = wrap bits (m + n) :=
  Int.bmod_add_bmod

theorem wrap_sub_wrap (bits : Nat) (m n : Int) :
    wrap bits (wrap bits m - wrap bits n) = wrap bits (m - n) := (Int.sub_bmod m n _).symm

theorem wrap_sum_wrap {α : Type} (bits : Nat) (f : α → Int) (l : List α) :
    wrap bits ((l.map fun x => wrap bits (f x)).sum) = wrap bits ((l.map f).sum) := by
  induction l with
  | nil => rfl
  | cons x l ih =>
    rw [List.map_cons, List.sum_cons, wrap_wrap_add, Int.add_comm, ← wrap_wrap_add, ih,
      wrap_wrap_add, List.map_cons, List.sum_cons, Int.add_comm]

theorem wrap_long_bounds (n : Int) : -2 ^ 63 ≤ wrap 64 n ∧ wrap 64 n < 2 ^ 63 := by
  unfold wrap
  rw [Int.bmod_def]
  omega

theorem wrap_long_sub_neg_iff {m n : Int} (hm : -2 ^ 63 ≤ m ∧ m < 2 ^ 63)
    (hn : -2 ^ 63 ≤ n ∧ n < 2 ^ 63) :
    (wrap 64 (m - n) < 0 ↔ m < n) ↔ -2 ^ 63 ≤ m - n ∧ m - n < 2 ^ 63 := by
  unfold wrap
  rw [Int.bmod_def]
  omega

theorem foldl_wrap (bits : Nat) (a : Int) (l : List Int) (ha : wrap bits a = a) :
    l.foldl (fun a b => wrap bits (a + b)) a = wrap bits (a + l.sum) := by
  induction l generalizing a with
  | nil => rw [List.foldl_nil, List.sum_nil, Int.add_zero, ha]
  | cons b l ih =>
    rw [List.foldl_cons, ih _ (wrap_wrap bits (a + b)), wrap_wrap_add, List.sum_cons,
      Int.add_assoc]

end MachineInt
