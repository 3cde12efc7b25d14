import Mathlib.Data.List.Basic

/-!
# Arrays that are filled from the front
-/

namespace Arrays

variable {α : Type}

theorem take_succ_set {l : List α} {n : Nat} (h : n < l.length) (x : α) :
    (l.set n x).take (n + 1) = l.take n ++ [x] := by
  rw [List.take_add_one, List.take_set_of_le (Nat.le_refl n), List.getElem?_set_self h]
  rfl

/-! A block is written from index `start` on. -/

variable {l m : List α} {start : Nat}

theorem take_splice (h : start + m.length ≤ l.length) :
    (l.take start ++ m ++ l.drop (start + m.length)).take (start + m.length) =
      l.take start ++ m :=
  List.take_left' (by rw [List.length_append, List.length_take]; omega)

theorem length_splice (h : start + m.length ≤ l.length) :
    (l.take start ++ m ++ l.drop (start + m.length)).length = l.length := by
  simp only [List.length_append, List.length_take, List.length_drop]
  omega

end Arrays
