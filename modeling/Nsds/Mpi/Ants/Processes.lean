import Nsds.Lib.Collectives
import Nsds.Mpi.Ants.Proofs

/-!
# The processes of `ants_simulation_25.c`

`main` as the collectives that every process calls. However long each of them takes for whom,
the processes end with what `simulate` says.
-/

namespace Nsds.Ants

open Collectives Relation

/-- What a process does next: which collective it calls. -/
inductive Pc where
  | bcastFoodSources
  | scatterAnts
  | bcastCenter
  | reduceCenter
deriving DecidableEq, Repr

/-- `ants` is the array of process 0. -/
structure Memory where
  pc : Pc
  iter : Nat
  foodSources : FoodSources
  ants : List ℚ
  process : Process

/-- What arrives in the array `food_sources`, which has an entry. -/
def FoodSources.ofBuffer : List ℚ → FoodSources
  | [] => ⟨0, []⟩
  | first :: rest => ⟨first, rest⟩

variable {numProcs : Nat}

/-- After `MPI_Bcast(food_sources, ...)`. -/
def Memory.bcastFoodSources (m : Memory) (foodSources : List ℚ) : Memory :=
  { m with pc := .scatterAnts, foodSources := .ofBuffer foodSources }

/-- After `MPI_Scatter`. Process 0 also computes the first center. -/
def Memory.scatterAnts (numAnts : Nat) (r : Fin numProcs) (m : Memory) (ants : List ℚ) : Memory :=
  { m with
    pc := .bcastCenter
    process := { m.process with
      localAnts := scatter (numAnts / numProcs) ants r
      center := if r.val = 0 then m.ants.sum / numAnts else m.process.center } }

/-- After `MPI_Bcast(&center, ...)` the ants move. -/
def Memory.bcastCenter (m : Memory) (center : List ℚ) : Memory :=
  { m with
    pc := .reduceCenter
    process := { m.process with
      center := center.headD 0
      localAnts := m.process.localAnts.map (moveAnt m.foodSources (center.headD 0)) } }

/-- After `MPI_Reduce`: only process 0 gets the sum. -/
def Memory.reduceCenter (r : Fin numProcs) (m : Memory) :
    Option (Fin numProcs → List ℚ) → Memory
  | some localCenters =>
    let center := ((List.finRange numProcs).map fun q => (localCenters q).headD 0).sum
    { m with
      pc := .bcastCenter
      iter := m.iter + 1
      process := ({ m.process with center := center }.divide numProcs).print r }
  | none =>
    { m with
      pc := .bcastCenter
      iter := m.iter + 1
      process := (m.process.divide numProcs).print r }

/-- What a process does next. -/
def main (numAnts numIterations : Nat) (r : Fin numProcs) (m : Memory) :
    Op (Fin numProcs) (List ℚ) Memory :=
  match m.pc with
  | .bcastFoodSources => .fromRoot (root r) m.foodSources.all m.bcastFoodSources
  | .scatterAnts => .fromRoot (root r) m.ants (m.scatterAnts numAnts r)
  | .bcastCenter =>
    if m.iter < numIterations then .fromRoot (root r) [m.process.center] m.bcastCenter else .exit
  | .reduceCenter =>
    .toRoot (root r) [m.process.localCenter (numAnts / numProcs)] (m.reduceCenter r)

/-- `uninitialized r` is what the variables of a process hold that it has not set. -/
def start (foodSources : FoodSources) (ants : List ℚ) (uninitialized : Fin numProcs → Memory)
    (r : Fin numProcs) : Memory where
  pc := .bcastFoodSources
  iter := 0
  foodSources := if r.val = 0 then foodSources else (uninitialized r).foodSources
  ants := if r.val = 0 then ants else (uninitialized r).ants
  process := { (uninitialized r).process with printed := [] }

/-! ## Every run -/

variable (foodSources : FoodSources) (ants : List ℚ) (uninitialized : Fin numProcs → Memory)

/-- What `simulate` says of the processes after `n` iterations. -/
def simulated (n : Nat) : State numProcs :=
  simulate foodSources ants (fun r => (uninitialized r).process.center) n

/-- The processes between two iterations. -/
def between (n : Nat) (r : Fin numProcs) : Memory where
  pc := .bcastCenter
  iter := n
  foodSources := foodSources
  ants := (start foodSources ants uninitialized r).ants
  process := simulated foodSources ants uninitialized n r

variable {foodSources ants uninitialized}

theorem rounds_start (r₀ : Fin numProcs) (numIterations : Nat) :
    ReflTransGen (Round (main ants.length numIterations)) (start foodSources ants uninitialized)
      (between foodSources ants uninitialized 0) := by
  let scattering (r : Fin numProcs) : Memory :=
    { start foodSources ants uninitialized r with pc := .scatterAnts, foodSources := foodSources }
  have hbcast : Round (main ants.length numIterations) (start foodSources ants uninitialized)
      scattering := .fromRoot (root r₀) _ (fun r => Memory.bcastFoodSources _) (fun r => rfl)
        fun r => rfl
  have hscatter : Round (main ants.length numIterations) scattering
      (between foodSources ants uninitialized 0) := by
    refine .fromRoot (root r₀) _ _ (fun r => rfl) fun r => ?_
    by_cases hr : r.val = 0 <;>
      simp [between, simulated, simulate, initial, Memory.scatterAnts, scattering, start, root, hr]
  exact .head hbcast (.single hscatter)

theorem rounds_iteration (r₀ : Fin numProcs) {numIterations n : Nat} (hn : n < numIterations) :
    ReflTransGen (Round (main ants.length numIterations)) (between foodSources ants uninitialized n)
      (between foodSources ants uninitialized (n + 1)) := by
  let moved (r : Fin numProcs) : Memory :=
    { between foodSources ants uninitialized n r with
      pc := .reduceCenter
      process := (simulated foodSources ants uninitialized n).bcast.moveAnts foodSources r }
  have hbcast : Round (main ants.length numIterations) (between foodSources ants uninitialized n)
      moved := .fromRoot (root r₀) _ _ (fun r => if_pos hn) fun r => rfl
  have hreduce : Round (main ants.length numIterations) moved
      (between foodSources ants uninitialized (n + 1)) := by
    refine .toRoot (root r₀) _ _ (fun r => rfl) fun r => ?_
    have hnext : simulated foodSources ants uninitialized (n + 1) r =
        iteration foodSources (ants.length / numProcs) (simulated foodSources ants uninitialized n)
          r := rfl
    have hroot : r = root r₀ ↔ r.val = 0 := Fin.ext_iff
    by_cases hr : r.val = 0 <;>
      simp [between, hnext, iteration, State.reduce, Memory.reduceCenter, moved, hroot, hr]
  exact .head hbcast (.single hreduce)

theorem rounds (r₀ : Fin numProcs) {numIterations n : Nat} (hn : n ≤ numIterations) :
    ReflTransGen (Round (main ants.length numIterations)) (start foodSources ants uninitialized)
      (between foodSources ants uninitialized n) := by
  induction n with
  | zero => exact rounds_start r₀ numIterations
  | succ n ih => exact (ih (by omega)).trans (rounds_iteration r₀ hn)

/-- In every run, whatever an MPI library does in a collective, all processes come to their end,
and process 0 has printed the averages of the sequential simulation if it has given all ants to
the processes. -/
theorem processes_complete (foodSources : FoodSources) (ants : List ℚ) (numIterations : Nat)
    (uninitialized : Fin numProcs → Memory) :
    Completes (main ants.length numIterations) (start foodSources ants uninitialized)
        (between foodSources ants uninitialized numIterations) ∧
      (numProcs ∣ ants.length → ∀ r : Fin numProcs, r.val = 0 →
        (between foodSources ants uninitialized numIterations r).process.printed =
          (List.range numIterations).map fun k => mean (antsAfter foodSources ants (k + 1))) := by
  constructor
  · rcases isEmpty_or_nonempty (Fin numProcs) with hempty | ⟨⟨r₀⟩⟩
    · have hstart : start foodSources ants uninitialized =
          between foodSources ants uninitialized numIterations := funext isEmptyElim
      exact completes_of_rounds (by rw [hstart]) isEmptyElim
    · refine completes_of_rounds (rounds r₀ (Nat.le_refl numIterations)) fun r => ?_
      simp [main, between]
  · intro hdvd r hr
    exact (simulate_agrees foodSources ants _ hdvd numIterations).printed r hr

end Nsds.Ants
