import Mathlib.Algebra.BigOperators.Ring.Finset
import Mathlib.Algebra.Order.BigOperators.Group.List
import Mathlib.Algebra.Order.Field.Rat
import Mathlib.Algebra.Order.Ring.Nat
import Mathlib.Tactic.Linarith
import Mathlib.Tactic.Positivity
import Nsds.Lib.Collectives
import Nsds.Lib.MachineInt

/-!
# `MPI/NSDS_MPI_lab/monte_carlo.c`

Every process draws points of the unit square and counts those in the quarter circle. Process 0
gets the sum of the counts. The coordinates are exact.
-/

namespace Nsds.MonteCarlo

open Collectives MachineInt Relation

/-- `RAND_MAX`, the iterations of a process, and what `rand()` returns in each of them. -/
structure Setup (numProcs : Nat) where
  randMax : Nat
  numIterPerProc : Nat
  rand : Fin numProcs → Nat → Nat × Nat

/-- A square root is at most 1 exactly if its square is, so one of the two tests is enough. -/
def inCircle (x y : ℚ) : Bool := x ^ 2 + y ^ 2 ≤ 1

variable {numProcs : Nat} (setup : Setup numProcs)

/-- The point of an iteration. -/
def Setup.point (r : Fin numProcs) (i : Nat) : ℚ × ℚ :=
  ((setup.rand r i).1 / setup.randMax, (setup.rand r i).2 / setup.randMax)

def Setup.localSum (r : Fin numProcs) : Nat :=
  (List.range setup.numIterPerProc).countP fun i =>
    inCircle (setup.point r i).1 (setup.point r i).2

inductive Pc where
  | reduce
  | done
deriving DecidableEq, Repr

structure Memory where
  pc : Pc
  printed : Option ℚ
deriving DecidableEq

/-- `MPI_SUM` and the number of all points are of type `int`. -/
def Memory.reduce (m : Memory) : Option (Fin numProcs → Nat) → Memory
  | some localSums =>
    let sum := wrap 32 ((List.finRange numProcs).map fun q => (localSums q : Int)).sum
    { m with
      pc := .done
      printed := some (4 * sum / wrap 32 (setup.numIterPerProc * numProcs)) }
  | none => { m with pc := .done }

def main (r : Fin numProcs) (m : Memory) : Op (Fin numProcs) Nat Memory :=
  match m.pc with
  | .reduce => .toRoot (processZero r) (setup.localSum r) (m.reduce setup)
  | .done => .exit

def start (_ : Fin numProcs) : Memory where
  pc := .reduce
  printed := none

/-- The points in the circle, of all processes. -/
def Setup.hits : Nat := ((List.finRange numProcs).map setup.localSum).sum

def final (r : Fin numProcs) : Memory where
  pc := .done
  printed :=
    if r.val = 0 then some (4 * wrap 32 setup.hits / wrap 32 (setup.numIterPerProc * numProcs))
    else none

/-! ## Every run -/

theorem hits_le : setup.hits ≤ setup.numIterPerProc * numProcs := by
  have hle := List.sum_le_card_nsmul ((List.finRange numProcs).map setup.localSum)
    setup.numIterPerProc fun sum hsum => ?_
  · rw [List.length_map, List.length_finRange, nsmul_eq_mul, Nat.cast_id, Nat.mul_comm] at hle
    exact hle
  · obtain ⟨r, -, rfl⟩ := List.mem_map.mp hsum
    exact List.countP_le_length.trans_eq List.length_range

variable {setup}

theorem round_reduce (r₀ : Fin numProcs) : Round (main setup) start (final setup) := by
  refine .toRoot (processZero r₀) _ _ (fun r => rfl) fun r => ?_
  have hroot : r = processZero r₀ ↔ r.val = 0 := Fin.ext_iff
  have hsum :
      ((List.finRange numProcs).map fun q => (setup.localSum q : Int)).sum = setup.hits := by
    rw [Setup.hits, Nat.cast_list_sum, List.map_map]
    rfl
  by_cases hr : r.val = 0
  · simp [final, Memory.reduce, hroot, hr, hsum]
  · simp [final, Memory.reduce, hroot, hr, start]

/-- All processes end in every run. As long as the number of points is an `int`, process 0 prints
four times the part of the points of all processes that lie in the circle. -/
theorem estimate_complete (setup : Setup numProcs) :
    Completes (main setup) start (final setup) ∧
      (0 < setup.numIterPerProc → setup.numIterPerProc * numProcs < 2 ^ 31 →
        ∀ r : Fin numProcs, r.val = 0 → ∃ pi : ℚ, (final setup r).printed = some pi ∧
          pi * (setup.numIterPerProc * numProcs : Nat) = 4 * setup.hits ∧ 0 ≤ pi ∧ pi ≤ 4) := by
  constructor
  · rcases isEmpty_or_nonempty (Fin numProcs) with hempty | ⟨⟨r₀⟩⟩
    · have hstart : start = final setup := funext isEmptyElim
      exact completes_of_rounds (by rw [hstart]) isEmptyElim
    · exact completes_of_rounds (.single (round_reduce r₀)) fun r => rfl
  · intro hpos hfits r hr
    have hle := hits_le setup
    have hpoints : (0 : ℚ) < (setup.numIterPerProc * numProcs : Nat) := by
      exact_mod_cast Nat.mul_pos hpos r.pos
    have hhits : (setup.hits : ℚ) ≤ (setup.numIterPerProc * numProcs : Nat) := by
      exact_mod_cast hle
    have hprinted : (final setup r).printed =
        some (4 * (setup.hits : ℚ) / (setup.numIterPerProc * numProcs : Nat)) := by
      have hwrap : wrap 32 setup.hits = setup.hits := wrap_of_int (by omega) (by omega)
      have hwrap' : wrap 32 (setup.numIterPerProc * numProcs) =
          (setup.numIterPerProc * numProcs : Nat) := by
        rw [← Nat.cast_mul, wrap_of_int (by omega) (by omega)]
      simp [final, hr, hwrap, hwrap']
    refine ⟨_, hprinted, div_mul_cancel₀ _ hpoints.ne', by positivity, ?_⟩
    rw [div_le_iff₀ hpoints]
    linarith

/-- Two processes with one point each, one of them in the circle. -/
def twoPoints : Setup 2 where
  randMax := 10
  numIterPerProc := 1
  rand r _ := if r = 0 then (3, 4) else (9, 9)

theorem estimate_complete_two :
    ∃ pi : ℚ, (final twoPoints 0).printed = some pi ∧ pi * 2 = 4 * twoPoints.hits := by
  have hpos : 0 < twoPoints.numIterPerProc := by decide
  obtain ⟨pi, hprinted, hpi, -⟩ := (estimate_complete twoPoints).2 hpos (by decide) 0 rfl
  exact ⟨pi, hprinted, hpi⟩

end Nsds.MonteCarlo
