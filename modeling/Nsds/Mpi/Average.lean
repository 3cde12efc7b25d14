import Mathlib.Algebra.BigOperators.Ring.Finset
import Mathlib.Algebra.BigOperators.Ring.List
import Mathlib.Algebra.Field.Rat
import Mathlib.Algebra.Order.BigOperators.Group.List
import Nsds.Lib.Collectives
import Nsds.Lib.MachineInt
import Nsds.Lib.Slices

/-!
# `MPI/NSDS_MPI_tutorial/src/average.c`

Process 0 scatters an array, every process averages its part, and process 0 averages the
averages. Then it computes the average once more by itself, to see whether they agree.
-/

namespace Nsds.Average

open Collectives MachineInt Relation

/-- `rand i` is what `rand()` returns for entry `i`. -/
def createRandomArray (rand : Nat → Nat) (numElements maxValue : Nat) : List Int :=
  (List.range numElements).map fun i => ((rand i % maxValue : Nat) : Int)

/-- The sum is an `int`, and the quotient is exact. -/
def computeAverage (array : List Int) (numElements : Nat) : ℚ :=
  ((array.take numElements).foldl (fun sum x => wrap 32 (sum + x)) 0 : Int) / numElements

/-- The average of the averages. -/
def computeFinalAverage (array : List ℚ) (numElements : Nat) : ℚ :=
  (array.take numElements).sum / numElements

/-- The two types of data that are sent. -/
inductive Buffer where
  | ints (array : List Int)
  | floats (array : List ℚ)
deriving DecidableEq

def Buffer.toInts : Buffer → List Int
  | .ints array => array
  | .floats _ => []

def Buffer.toFloats : Buffer → List ℚ
  | .ints _ => []
  | .floats array => array

inductive Pc where
  | scatter
  | gather
  | barrier
  | done
deriving DecidableEq, Repr

/-- `globalArr` is the array of process 0, and `printed` the two averages. -/
structure Memory where
  pc : Pc
  globalArr : List Int
  localAverage : ℚ
  printed : List ℚ
deriving DecidableEq

variable {worldSize : Nat}

/-- After `MPI_Scatter`. -/
def Memory.scatter (numElementsPerProc : Nat) (r : Fin worldSize) (m : Memory)
    (globalArr : Buffer) : Memory :=
  let localArr := (globalArr.toInts.drop (r * numElementsPerProc)).take numElementsPerProc
  { m with pc := .gather, localAverage := computeAverage localArr numElementsPerProc }

/-- After `MPI_Gather`, with the averages if it is process 0. -/
def Memory.gather (numElementsPerProc : Nat) (m : Memory) :
    Option (Fin worldSize → Buffer) → Memory
  | some averages =>
    let gatherBuffer := (List.finRange worldSize).flatMap fun q => (averages q).toFloats
    { m with
      pc := .barrier
      printed := [computeFinalAverage gatherBuffer worldSize,
        computeAverage m.globalArr (numElementsPerProc * worldSize)] }
  | none => { m with pc := .barrier }

/-- What a process does next. -/
def main (numElementsPerProc : Nat) (r : Fin worldSize) (m : Memory) :
    Op (Fin worldSize) Buffer Memory :=
  match m.pc with
  | .scatter =>
    .fromRoot (processZero r) (.ints m.globalArr) (m.scatter numElementsPerProc r)
  | .gather =>
    .toRoot (processZero r) (.floats [m.localAverage]) (m.gather numElementsPerProc)
  | .barrier => .barrier (.ints []) { m with pc := .done }
  | .done => .exit

def start (rand : Nat → Nat) (numElementsPerProc : Nat) (r : Fin worldSize) : Memory where
  pc := .scatter
  globalArr :=
    if r.val = 0 then createRandomArray rand (numElementsPerProc * worldSize) 100 else []
  localAverage := 0
  printed := []

/-! ## Sums -/

/-- The part of the array that `r` gets. -/
def slice (array : List Int) (numElementsPerProc : Nat) (r : Fin worldSize) : List Int :=
  (array.drop (r * numElementsPerProc)).take numElementsPerProc

theorem computeAverage_eq {array : List Int} {numElements : Nat}
    (hlength : array.length = numElements) (harray : ∀ x ∈ array, 0 ≤ x ∧ x ≤ 99)
    (hfits : 99 * numElements < 2 ^ 31) :
    computeAverage array numElements = (array.sum : Int) / (numElements : ℚ) := by
  have hlow : 0 ≤ array.sum := List.sum_nonneg fun x hx => (harray x hx).1
  have hhigh : array.sum ≤ array.length • 99 :=
    List.sum_le_card_nsmul array 99 fun x hx => (harray x hx).2
  rw [hlength, nsmul_eq_mul] at hhigh
  unfold computeAverage
  rw [List.take_of_length_le hlength.le, foldl_wrap 32 0 array rfl, Int.zero_add,
    wrap_of_int (by omega) (by omega)]

theorem createRandomArray_length (rand : Nat → Nat) (numElements maxValue : Nat) :
    (createRandomArray rand numElements maxValue).length = numElements := by
  simp [createRandomArray]

theorem createRandomArray_bounds (rand : Nat → Nat) (numElements : Nat) :
    ∀ x ∈ createRandomArray rand numElements 100, 0 ≤ x ∧ x ≤ 99 := by
  simp only [createRandomArray, List.mem_map]
  rintro x ⟨i, -, rfl⟩
  omega

theorem average_of_averages {array : List Int} {numElementsPerProc : Nat}
    (hlength : array.length = numElementsPerProc * worldSize)
    (harray : ∀ x ∈ array, 0 ≤ x ∧ x ≤ 99)
    (hfits : 99 * (numElementsPerProc * worldSize) < 2 ^ 31) (r₀ : Fin worldSize) :
    computeFinalAverage ((List.finRange worldSize).map fun q =>
      computeAverage (slice array numElementsPerProc q) numElementsPerProc) worldSize =
        computeAverage array (numElementsPerProc * worldSize) := by
  have hslice (q : Fin worldSize) :
      computeAverage (slice array numElementsPerProc q) numElementsPerProc =
        ((slice array numElementsPerProc q).sum : Int) / (numElementsPerProc : ℚ) := by
    refine computeAverage_eq ?_ (fun x hx => harray x (List.mem_of_mem_drop
      (List.mem_of_mem_take hx))) ?_
    · have hle : (q.val + 1) * numElementsPerProc ≤ worldSize * numElementsPerProc :=
        Nat.mul_le_mul_right numElementsPerProc q.isLt
      rw [Nat.succ_mul, Nat.mul_comm worldSize] at hle
      simp only [slice, List.length_take, List.length_drop, hlength]
      omega
    · have hle : numElementsPerProc * 1 ≤ numElementsPerProc * worldSize :=
        Nat.mul_le_mul_left numElementsPerProc r₀.pos
      omega
  have hsum : ((List.finRange worldSize).map fun q =>
      (slice array numElementsPerProc q).sum).sum = array.sum := by
    have hslices := Slices.take_slices array worldSize numElementsPerProc
    rw [Nat.mul_comm, ← hlength, List.take_length] at hslices
    have hflat := congrArg List.sum hslices
    rw [List.flatMap_def, List.sum_flatten, List.map_map] at hflat
    exact hflat
  rw [computeAverage_eq hlength harray hfits, ← hsum]
  unfold computeFinalAverage
  rw [List.take_of_length_le (by simp), List.map_congr_left fun q _ => hslice q, Nat.cast_mul,
    ← div_div, Int.cast_list_sum, List.map_map]
  simp only [div_eq_mul_inv]
  rw [List.sum_map_mul_right]
  rfl

/-! ## Every run -/

section

variable (rand : Nat → Nat) (numElementsPerProc : Nat)

/-- After the scatter. -/
def scattered (r : Fin worldSize) : Memory :=
  let array := createRandomArray rand (numElementsPerProc * worldSize) 100
  { start rand numElementsPerProc r with
    pc := .gather
    localAverage := computeAverage (slice array numElementsPerProc r) numElementsPerProc }

/-- After the gather. -/
def gathered (r : Fin worldSize) : Memory :=
  let array := createRandomArray rand (numElementsPerProc * worldSize) 100
  let average := computeAverage array (numElementsPerProc * worldSize)
  { scattered rand numElementsPerProc r with
    pc := .barrier
    printed := if r.val = 0 then [average, average] else [] }

/-- At the end. -/
def final (r : Fin worldSize) : Memory :=
  { gathered rand numElementsPerProc r with pc := .done }

variable {rand numElementsPerProc}

theorem round_gather (hfits : 99 * (numElementsPerProc * worldSize) < 2 ^ 31)
    (r₀ : Fin worldSize) :
    Round (main numElementsPerProc) (fun r : Fin worldSize => scattered rand numElementsPerProc r)
      (gathered rand numElementsPerProc) := by
  refine .toRoot (processZero r₀) _ _ (fun r => rfl) fun r => ?_
  have hroot : r = processZero r₀ ↔ r.val = 0 := Fin.ext_iff
  have haverage := average_of_averages (createRandomArray_length rand _ 100)
    (createRandomArray_bounds rand _) hfits r₀
  by_cases hr : r.val = 0
  · have hglobal : (start rand numElementsPerProc r).globalArr =
        createRandomArray rand (numElementsPerProc * worldSize) 100 := if_pos hr
    simp [gathered, Memory.gather, hroot, hr, hglobal, Buffer.toFloats, ← haverage, scattered,
      List.map_eq_flatMap]
  · simp [gathered, Memory.gather, hroot, hr, scattered, start]

/-- In every run process 0 prints two averages that agree, both that of the whole array. -/
theorem average_complete (rand : Nat → Nat) {numElementsPerProc : Nat}
    (hpos : 0 < numElementsPerProc) (hfits : 99 * (numElementsPerProc * worldSize) < 2 ^ 31) :
    Completes (main numElementsPerProc)
        (fun r : Fin worldSize => start rand numElementsPerProc r)
        (final rand numElementsPerProc) ∧
      ∀ r : Fin worldSize, r.val = 0 → ∃ average : ℚ,
        (final rand numElementsPerProc r).printed = [average, average] ∧
        average * (numElementsPerProc * worldSize : Nat) =
          (createRandomArray rand (numElementsPerProc * worldSize) 100).sum := by
  constructor
  · rcases isEmpty_or_nonempty (Fin worldSize) with hempty | ⟨⟨r₀⟩⟩
    · have hstart : (fun r : Fin worldSize => start rand numElementsPerProc r) =
          final rand numElementsPerProc := funext isEmptyElim
      exact completes_of_rounds (by rw [hstart]) isEmptyElim
    · have hscatter : Round (main numElementsPerProc)
          (fun r : Fin worldSize => start rand numElementsPerProc r)
          (scattered rand numElementsPerProc) :=
        .fromRoot (processZero r₀) _ _ (fun r => rfl) fun r => rfl
      have hbarrier : Round (main numElementsPerProc)
          (fun r : Fin worldSize => gathered rand numElementsPerProc r)
          (final rand numElementsPerProc) := .barrier _ fun r => rfl
      refine completes_of_rounds (.head hscatter (.head (round_gather hfits r₀) (.single hbarrier)))
        fun r => rfl
  · intro r hr
    refine ⟨_, if_pos hr, ?_⟩
    have hne : ((numElementsPerProc * worldSize : Nat) : ℚ) ≠ 0 := by
      exact_mod_cast (Nat.mul_pos hpos r.pos).ne'
    rw [computeAverage_eq (createRandomArray_length rand _ 100) (createRandomArray_bounds rand _)
      hfits, div_mul_cancel₀ _ hne]

theorem average_complete_two : ∃ average : ℚ,
    (final (fun i => 4 * i + 3) 2 (0 : Fin 2)).printed = [average, average] ∧
      average * 4 = 36 :=
  (average_complete (fun i => 4 * i + 3) (by decide : 0 < 2) (by decide)).2 (0 : Fin 2) rfl

end

end Nsds.Average
