import Mathlib.Algebra.Order.Ring.Rat

/-!
# `MPI/NSDS_MPI_eval/ants_simulation_25.c`

The ants are scattered over the processes. In every iteration they move towards food
and towards the center, and the processes compute a new center together. The numbers
are exact here.
-/

namespace Nsds.Ants

/-- The array `food_sources`, with its first entry apart since it has one. -/
structure FoodSources where
  first : ℚ
  rest : List ℚ

/-- The force of the nearest source. -/
def getF1 (pos : ℚ) (foodSource : FoodSources) : ℚ :=
  let min := foodSource.rest.foldl
    (fun min source => if |source - pos| < |min| then source - pos else min)
    (foodSource.first - pos)
  min * 0.01

/-- The force of the center. -/
def getF2 (pos center : ℚ) : ℚ := (center - pos) * 0.012

def moveAnt (foodSources : FoodSources) (center ant : ℚ) : ℚ :=
  let ant := ant + getF1 ant foodSources
  ant + getF2 ant center

/-- The variables of a process, and what it has printed. -/
structure Process where
  localAnts : List ℚ
  center : ℚ
  printed : List ℚ

abbrev State (numProcs : Nat) := Fin numProcs → Process

variable {numProcs : Nat}

/-- Process 0. There is one if there is any. -/
def root (r : Fin numProcs) : Fin numProcs := ⟨0, r.pos⟩

/-! ## One iteration -/

/-- `MPI_Bcast` of the center. -/
def State.bcast (s : State numProcs) : State numProcs := fun r =>
  { s r with center := (s (root r)).center }

def State.moveAnts (foodSources : FoodSources) (s : State numProcs) : State numProcs := fun r =>
  { s r with localAnts := (s r).localAnts.map (moveAnt foodSources (s r).center) }

/-- The average of the ants of a process. -/
def Process.localCenter (numLocalAnts : Nat) (p : Process) : ℚ := p.localAnts.sum / numLocalAnts

/-- `MPI_Reduce(&local_center, &center, ...)`: only process 0 gets the sum. -/
def State.reduce (numLocalAnts : Nat) (s : State numProcs) : State numProcs := fun r =>
  if r.val = 0 then
    { s r with
      center := ((List.finRange numProcs).map fun q => (s q).localCenter numLocalAnts).sum }
  else s r

/-- `center /= num_procs`, on every process. -/
def Process.divide (numProcs : Nat) (p : Process) : Process :=
  { p with center := p.center / numProcs }

def Process.print (r : Fin numProcs) (p : Process) : Process :=
  if r.val = 0 then { p with printed := p.printed ++ [p.center] } else p

/-- One turn of the loop, of all processes. -/
def iteration (foodSources : FoodSources) (numLocalAnts : Nat) (s : State numProcs) :
    State numProcs :=
  fun r => ((((s.bcast).moveAnts foodSources).reduce numLocalAnts r).divide numProcs).print r

/-! ## The simulation -/

/-- `MPI_Scatter(ants, num_local_ants, ...)`. -/
def scatter (numLocalAnts : Nat) (ants : List ℚ) (r : Fin numProcs) : List ℚ :=
  (ants.drop (r * numLocalAnts)).take numLocalAnts

/-- Before the first iteration. `uninitialized r` is what `center` holds in the other processes. -/
def initial (ants : List ℚ) (uninitialized : Fin numProcs → ℚ) : State numProcs := fun r =>
  { localAnts := scatter (ants.length / numProcs) ants r
    center := if r.val = 0 then ants.sum / ants.length else uninitialized r
    printed := [] }

/-- The processes after `n` iterations. What `malloc` returns is not initialized. -/
def simulate (foodSources : FoodSources) (ants : List ℚ) (uninitialized : Fin numProcs → ℚ) :
    (n : Nat) → State numProcs
  | 0 => initial ants uninitialized
  | n + 1 =>
    iteration foodSources (ants.length / numProcs) (simulate foodSources ants uninitialized n)

end Nsds.Ants
