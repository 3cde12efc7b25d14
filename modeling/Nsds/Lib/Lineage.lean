import Mathlib.Algebra.Ring.Nat
import Mathlib.Logic.Function.Iterate

/-!
# Datasets that are computed when they are needed

Every dataset is derived from the one before it, row by row. A dataset that is to be kept is
stored when it is computed. One that is not stored is computed whenever it is needed.
-/

namespace Lineage

variable {α : Type}

/-- Which datasets are kept, and those that are there. -/
structure Store (α : Type) where
  kept : Nat → Bool
  stored : Nat → Option (List α)
  /-- How many rows were derived. -/
  invocations : Nat

namespace Store

def start : Store α where
  kept _ := false
  stored _ := none
  invocations := 0

/-- The dataset is stored when it is computed next. -/
def cache (s : Store α) (n : Nat) : Store α := { s with kept := Function.update s.kept n true }

/-- The dataset is no longer kept, and gone if it was stored. -/
def unpersist (s : Store α) (n : Nat) : Store α :=
  { s with kept := Function.update s.kept n false, stored := Function.update s.stored n none }

def computed (s : Store α) (n : Nat) (rows : List α) : Store α :=
  if s.kept n then { s with stored := Function.update s.stored n (some rows) } else s

end Store

theorem Store.computed_kept {s : Store α} {n : Nat} {rows : List α} (h : s.kept n = true) :
    s.computed n rows = { s with stored := Function.update s.stored n (some rows) } := by
  unfold computed
  rw [if_pos h]

variable (source : List α) (derive : α → α)

/-- Dataset `n` from the nearest one before it that is stored. -/
def compute : Nat → Store α → Store α × List α
  | 0, s => match s.stored 0 with
    | some rows => (s, rows)
    | none => (s.computed 0 source, source)
  | n + 1, s => match s.stored (n + 1) with
    | some rows => (s, rows)
    | none =>
      let (s, rows) := compute n s
      let rows := rows.map derive
      ({ s with invocations := s.invocations + rows.length }.computed (n + 1) rows, rows)

/-- The rows of each dataset. -/
def rows (n : Nat) : List α := (List.map derive)^[n] source

variable {source derive} {s : Store α}

theorem rows_succ (n : Nat) : rows source derive (n + 1) = (rows source derive n).map derive :=
  Function.iterate_succ_apply' ..

theorem length_rows (n : Nat) : (rows source derive n).length = source.length := by
  induction n with
  | zero => rfl
  | succ n ih => rw [rows_succ, List.length_map, ih]

theorem compute_stored {n : Nat} {l : List α} (h : s.stored n = some l) :
    compute source derive n s = (s, l) := by
  cases n <;> simp [compute, h]

theorem compute_succ {n : Nat} (h : compute source derive n s = (s, rows source derive n))
    (hnone : s.stored (n + 1) = none) :
    compute source derive (n + 1) s =
      ({ s with invocations := s.invocations + source.length }.computed (n + 1)
        (rows source derive (n + 1)), rows source derive (n + 1)) := by
  simp only [compute, hnone, h, ← rows_succ, length_rows]

theorem compute_of_not_kept (invocations n : Nat) :
    compute source derive n ⟨fun _ => false, fun _ => none, invocations⟩ =
      (⟨fun _ => false, fun _ => none, invocations + source.length * n⟩, rows source derive n) := by
  induction n with
  | zero => simp [compute, Store.computed, rows]
  | succ n ih =>
    simp only [compute, ih, ← rows_succ, length_rows, Store.computed]
    simp [Nat.mul_succ, Nat.add_assoc]

end Lineage
