import Mathlib.Algebra.BigOperators.Ring.List
import Mathlib.Data.List.MinMax
import Mathlib.Tactic.Ring
import Nsds.Lib.Slices
import Nsds.Mpi.Ants.Code

/-!
# The processes together are a single one

Put together, the ants of the processes are those of a simulation in a single process,
and the mean of the means of the processes is the mean of all ants.
-/

namespace Nsds.Ants

/-! ## The nearest food source -/

def FoodSources.all (foodSources : FoodSources) : List ℚ := foodSources.first :: foodSources.rest

/-- A food source nearest to `pos`, the first one if there are several. -/
def nearest (foodSources : FoodSources) (pos : ℚ) : ℚ :=
  (foodSources.all.argmin fun source => |source - pos|).getD 0

theorem getF1_loop (pos : ℚ) (source : ℚ) (rest : List ℚ) :
    (rest.foldl (List.argAux fun b c => |b - pos| < |c - pos|) (some source)).map (· - pos) =
      some (rest.foldl (fun min source => if |source - pos| < |min| then source - pos else min)
        (source - pos)) := by
  induction rest generalizing source with
  | nil => rfl
  | cons next rest ih =>
    rw [List.foldl_cons, List.foldl_cons]
    unfold List.argAux at ih ⊢
    dsimp only at ih ⊢
    split
    · exact ih next
    · exact ih source

theorem getF1_eq (pos : ℚ) (foodSources : FoodSources) :
    getF1 pos foodSources = 0.01 * (nearest foodSources pos - pos) := by
  have hloop := getF1_loop pos foodSources.first foodSources.rest
  obtain ⟨source, hsource, heq⟩ := Option.map_eq_some_iff.mp hloop
  have hnearest : nearest foodSources pos = source := by
    unfold nearest FoodSources.all List.argmin
    rw [List.foldl_cons]
    exact congrArg (Option.getD · 0) hsource
  unfold getF1
  rw [hnearest, ← heq, mul_comm]

theorem nearest_mem_argmin (foodSources : FoodSources) (pos : ℚ) :
    nearest foodSources pos ∈ foodSources.all.argmin fun source => |source - pos| := by
  unfold nearest
  cases h : foodSources.all.argmin fun source => |source - pos| with
  | none => exact absurd (List.argmin_eq_none.mp h) (List.cons_ne_nil _ _)
  | some source => rfl

theorem nearest_spec (foodSources : FoodSources) (pos : ℚ) :
    nearest foodSources pos ∈ foodSources.all ∧
      ∀ source ∈ foodSources.all, |nearest foodSources pos - pos| ≤ |source - pos| := by
  have hmem := nearest_mem_argmin foodSources pos
  refine ⟨List.argmin_mem hmem, fun source h => ?_⟩
  have hle := List.le_of_mem_argmin h hmem
  exact hle

/-! ## The single process -/

def mean (ants : List ℚ) : ℚ := ants.sum / ants.length

/-- An ant moves by 0.01 of its distance to the nearest source, and then by 0.012 of its
distance to the center. -/
def pull (foodSources : FoodSources) (center ant : ℚ) : ℚ :=
  let nearer := ant + 0.01 * (nearest foodSources ant - ant)
  nearer + 0.012 * (center - nearer)

/-- All ants after `n` iterations. The center of an iteration is the mean before it. -/
def antsAfter (foodSources : FoodSources) (ants : List ℚ) : (n : Nat) → List ℚ
  | 0 => ants
  | n + 1 =>
    let before := antsAfter foodSources ants n
    before.map (pull foodSources (mean before))

theorem moveAnt_eq (foodSources : FoodSources) (center ant : ℚ) :
    moveAnt foodSources center ant = pull foodSources center ant := by
  unfold moveAnt pull getF2
  rw [getF1_eq]
  ring

theorem length_antsAfter (foodSources : FoodSources) (ants : List ℚ) (n : Nat) :
    (antsAfter foodSources ants n).length = ants.length := by
  induction n with
  | zero => rfl
  | succ n ih =>
    unfold antsAfter
    rw [List.length_map, ih]

/-! ## The processes -/

variable {numProcs : Nat}

/-- The ants of all processes, in the order of the ranks. -/
def allAnts (s : State numProcs) : List ℚ :=
  (List.finRange numProcs).flatMap fun r => (s r).localAnts

theorem mean_of_means (s : State numProcs) {numLocalAnts : Nat} {ants : List ℚ}
    (hants : allAnts s = ants) (hlength : numProcs * numLocalAnts = ants.length) :
    ((List.finRange numProcs).map fun q => (s q).localCenter numLocalAnts).sum / numProcs =
      mean ants := by
  have hsum : ants.sum = ((List.finRange numProcs).map fun q => (s q).localAnts.sum).sum := by
    rw [← hants]
    unfold allAnts
    rw [List.flatMap_def, List.sum_flatten, List.map_map]
    rfl
  unfold mean Process.localCenter
  rw [hsum, ← hlength, Nat.cast_mul, mul_comm, ← div_div]
  simp only [div_eq_mul_inv]
  rw [List.sum_map_mul_right]

/-- The center and the ants of the processes after `n` iterations, and what was printed. -/
structure Agrees (foodSources : FoodSources) (ants : List ℚ) (n : Nat) (s : State numProcs) :
    Prop where
  allAnts : allAnts s = antsAfter foodSources ants n
  center : ∀ r, r.val = 0 → (s r).center = mean (antsAfter foodSources ants n)
  printed : ∀ r, r.val = 0 → (s r).printed =
    (List.range n).map fun k => mean (antsAfter foodSources ants (k + 1))

variable {foodSources : FoodSources} {ants : List ℚ} {s : State numProcs}

theorem moveAnts_allAnts {n : Nat} (h : Agrees foodSources ants n s) :
    allAnts (s.bcast.moveAnts foodSources) = antsAfter foodSources ants (n + 1) := by
  have hpull : ∀ r, (s.bcast.moveAnts foodSources r).localAnts =
      (s r).localAnts.map (pull foodSources (mean (antsAfter foodSources ants n))) := by
    intro r
    unfold State.moveAnts State.bcast
    dsimp only
    rw [h.center (root r) rfl]
    exact List.map_congr_left fun ant _ => moveAnt_eq foodSources _ ant
  unfold Ants.allAnts
  rw [List.flatMap_congr fun r _ => hpull r, ← List.map_flatMap]
  exact congrArg _ h.allAnts

theorem Agrees.iteration {n : Nat} (h : Agrees foodSources ants n s)
    (hdvd : numProcs ∣ ants.length) :
    Agrees foodSources ants (n + 1) (iteration foodSources (ants.length / numProcs) s) := by
  have hmoved := moveAnts_allAnts h
  have hlength : numProcs * (ants.length / numProcs) =
      (antsAfter foodSources ants (n + 1)).length := by
    rw [length_antsAfter, Nat.mul_div_cancel' hdvd]
  have hmean := mean_of_means _ hmoved hlength
  have hcenter : ∀ r : Fin numProcs, r.val = 0 →
      (Ants.iteration foodSources (ants.length / numProcs) s r).center =
        mean (antsAfter foodSources ants (n + 1)) := by
    intro r hr
    rw [← hmean]
    unfold Ants.iteration Process.print Process.divide State.reduce
    rw [if_pos hr, if_pos hr]
  constructor
  · rw [← hmoved]
    apply List.flatMap_congr
    intro r _
    unfold Ants.iteration Process.print Process.divide State.reduce
    split <;> rfl
  · exact hcenter
  · intro r hr
    have hprinted : (Ants.iteration foodSources (ants.length / numProcs) s r).printed =
        (s r).printed ++ [(Ants.iteration foodSources (ants.length / numProcs) s r).center] := by
      unfold Ants.iteration Process.print Process.divide State.reduce
      rw [if_pos hr, if_pos hr]
      rfl
    rw [hprinted, hcenter r hr, h.printed r hr, List.range_succ, List.map_append]
    rfl

theorem simulate_agrees (foodSources : FoodSources) (ants : List ℚ)
    (uninitialized : Fin numProcs → ℚ) (hdvd : numProcs ∣ ants.length) (n : Nat) :
    Agrees foodSources ants n (simulate foodSources ants uninitialized n) := by
  induction n with
  | zero =>
    constructor
    · unfold Ants.allAnts simulate initial scatter
      dsimp only
      rw [Slices.take_slices, Nat.mul_div_cancel' hdvd, List.take_length]
      rfl
    · intro r hr
      unfold simulate initial
      dsimp only
      rw [if_pos hr]
      rfl
    · intro r _
      rfl
  | succ n ih => exact ih.iteration hdvd

/-- Whatever the number of processes, as long as it divides the number of ants, process 0
prints the centers of a single process: the means of all ants, which go to a nearest
source and to the center. -/
theorem distributed_eq_sequential (foodSources : FoodSources) (ants : List ℚ) :
    (∀ pos, nearest foodSources pos ∈ foodSources.all ∧
      ∀ source ∈ foodSources.all, |nearest foodSources pos - pos| ≤ |source - pos|) ∧
    (∀ numProcs, numProcs ∣ ants.length → ∀ (uninitialized : Fin numProcs → ℚ) (r : Fin numProcs),
      r.val = 0 → ∀ n, (simulate foodSources ants uninitialized n r).printed =
        (List.range n).map fun k => mean (antsAfter foodSources ants (k + 1))) ∧
    ∀ numProcs numProcs', numProcs ∣ ants.length → numProcs' ∣ ants.length →
      ∀ (uninitialized : Fin numProcs → ℚ) (uninitialized' : Fin numProcs' → ℚ)
        (r : Fin numProcs) (r' : Fin numProcs'), r.val = 0 → r'.val = 0 → ∀ n,
        (simulate foodSources ants uninitialized n r).printed =
          (simulate foodSources ants uninitialized' n r').printed := by
  refine ⟨nearest_spec foodSources, ?_, ?_⟩
  · intro numProcs hdvd uninitialized r hr n
    exact (simulate_agrees foodSources ants uninitialized hdvd n).printed r hr
  · intro numProcs numProcs' hdvd hdvd' uninitialized uninitialized' r r' hr hr' n
    rw [(simulate_agrees foodSources ants uninitialized hdvd n).printed r hr,
      (simulate_agrees foodSources ants uninitialized' hdvd' n).printed r' hr']

theorem distributed_eq_sequential_two :
    (simulate ⟨5, []⟩ [1, 3] (fun _ : Fin 2 => 0) 3 0).printed =
      (simulate ⟨5, []⟩ [1, 3] (fun _ : Fin 1 => 0) 3 0).printed :=
  (distributed_eq_sequential ⟨5, []⟩ [1, 3]).2.2 2 1 (by decide) (by decide) _ _ 0 0 rfl rfl 3

end Nsds.Ants
