import Mathlib.Tactic.NormNum
import Nsds.Lib.Interval
import Nsds.Mpi.Ants.Proofs

/-!
# The ants stay in the arena

The pulls of an iteration are towards a food source and towards the center, which is a mean.
So nothing leaves an interval that all ants and all sources are in at the start, whatever the
number of processes is.
-/

namespace Nsds.Ants

open Interval

variable {foodSources : FoodSources} {lo hi : ℚ}

theorem getF1_mem (hfood : ∀ source ∈ foodSources.all, source ∈ Set.Icc lo hi) {pos : ℚ}
    (hpos : pos ∈ Set.Icc lo hi) : pos + getF1 pos foodSources ∈ Set.Icc lo hi := by
  rw [getF1_eq]
  exact pull_mem hpos (hfood _ (nearest_spec foodSources pos).1) (by norm_num) (by norm_num)

theorem getF2_mem {pos center : ℚ} (hpos : pos ∈ Set.Icc lo hi) (hcenter : center ∈ Set.Icc lo hi) :
    pos + getF2 pos center ∈ Set.Icc lo hi := by
  rw [getF2, mul_comm]
  exact pull_mem hpos hcenter (by norm_num) (by norm_num)

theorem moveAnt_mem (hfood : ∀ source ∈ foodSources.all, source ∈ Set.Icc lo hi) {center ant : ℚ}
    (hcenter : center ∈ Set.Icc lo hi) (hant : ant ∈ Set.Icc lo hi) :
    moveAnt foodSources center ant ∈ Set.Icc lo hi :=
  getF2_mem (getF1_mem hfood hant) hcenter

/-! ## The processes -/

variable {numProcs : Nat}

/-- Before an iteration. Only process 0 knows the center then. -/
structure InArena (lo hi : ℚ) (numLocalAnts : Nat) (s : State numProcs) : Prop where
  length : ∀ r, (s r).localAnts.length = numLocalAnts
  ants : ∀ r, ∀ ant ∈ (s r).localAnts, ant ∈ Set.Icc lo hi
  center : ∀ r, r.val = 0 → (s r).center ∈ Set.Icc lo hi

theorem InArena.bcast {numLocalAnts : Nat} {s : State numProcs} (h : InArena lo hi numLocalAnts s)
    (r : Fin numProcs) : (s.bcast r).center ∈ Set.Icc lo hi := h.center (root r) rfl

theorem length_scatter {numLocalAnts : Nat} {ants : List ℚ}
    (hants : numProcs * numLocalAnts ≤ ants.length) (r : Fin numProcs) :
    (scatter numLocalAnts ants r).length = numLocalAnts := by
  have hle : (r.val + 1) * numLocalAnts ≤ numProcs * numLocalAnts :=
    Nat.mul_le_mul_right _ r.isLt
  rw [Nat.succ_mul] at hle
  rw [scatter, List.length_take, List.length_drop]
  omega

theorem initial_inArena {ants : List ℚ} (hprocs : numProcs ≤ ants.length)
    (hants : ∀ ant ∈ ants, ant ∈ Set.Icc lo hi) (uninitialized : Fin numProcs → ℚ) :
    InArena lo hi (ants.length / numProcs) (initial ants uninitialized) := by
  constructor
  · exact length_scatter (Nat.mul_div_le ants.length numProcs)
  · intro r ant hant
    exact hants ant (List.mem_of_mem_drop (List.mem_of_mem_take hant))
  · intro r hr
    unfold initial
    simp only [if_pos hr]
    apply mean_mem _ hants
    rintro rfl
    have := r.isLt
    simp at hprocs
    omega

theorem InArena.iteration {numLocalAnts : Nat} {s : State numProcs}
    (h : InArena lo hi numLocalAnts s) (hpos : 0 < numLocalAnts)
    (hfood : ∀ source ∈ foodSources.all, source ∈ Set.Icc lo hi) :
    InArena lo hi numLocalAnts (iteration foodSources numLocalAnts s) := by
  let moved := s.bcast.moveAnts foodSources
  have hlocal : ∀ r, (Ants.iteration foodSources numLocalAnts s r).localAnts =
      (moved r).localAnts := by
    intro r
    unfold Ants.iteration Process.print Process.divide State.reduce
    split <;> rfl
  have hlength : ∀ r, (moved r).localAnts.length = numLocalAnts := by
    intro r
    exact List.length_map _ |>.trans (h.length r)
  have hants : ∀ r, ∀ ant ∈ (moved r).localAnts, ant ∈ Set.Icc lo hi := by
    intro r
    exact List.forall_mem_map.mpr fun ant hant => moveAnt_mem hfood (h.bcast r) (h.ants r ant hant)
  constructor
  · intro r
    rw [hlocal, hlength]
  · intro r
    rw [hlocal]
    exact hants r
  · intro r hr
    -- the new center is the mean of the local centers, each of which is one of some ants
    have hcenter : (Ants.iteration foodSources numLocalAnts s r).center =
        ((List.finRange numProcs).map fun q => (moved q).localCenter numLocalAnts).sum /
          ((List.finRange numProcs).map fun q => (moved q).localCenter numLocalAnts).length := by
      rw [List.length_map, List.length_finRange]
      unfold Ants.iteration Process.print Process.divide State.reduce
      rw [if_pos hr, if_pos hr]
    rw [hcenter]
    apply mean_mem
    · rw [Ne, List.map_eq_nil_iff]
      exact List.ne_nil_of_mem (List.mem_finRange r)
    · refine List.forall_mem_map.mpr fun q _ => ?_
      rw [Process.localCenter, ← hlength q]
      apply mean_mem _ (hants q)
      rw [← List.length_pos_iff, hlength]
      exact hpos

theorem simulate_inArena {ants : List ℚ} (hprocs : numProcs ≤ ants.length)
    (hants : ∀ ant ∈ ants, ant ∈ Set.Icc lo hi)
    (hfood : ∀ source ∈ foodSources.all, source ∈ Set.Icc lo hi)
    (uninitialized : Fin numProcs → ℚ) (hnonempty : 0 < numProcs) (n : Nat) :
    InArena lo hi (ants.length / numProcs) (simulate foodSources ants uninitialized n) := by
  induction n with
  | zero => exact initial_inArena hprocs hants uninitialized
  | succ n ih => exact ih.iteration (Nat.div_pos hprocs hnonempty) hfood

/-- The interval may be the arena, or the smallest one with all ants and food sources in it. The
number of processes need not divide that of the ants. -/
theorem stays_in_arena {ants : List ℚ} (hants : ∀ ant ∈ ants, ant ∈ Set.Icc lo hi)
    (hfood : ∀ source ∈ foodSources.all, source ∈ Set.Icc lo hi) (hprocs : numProcs ≤ ants.length)
    (uninitialized : Fin numProcs → ℚ) (n : Nat) (r : Fin numProcs) :
    (∀ ant ∈ (simulate foodSources ants uninitialized n r).localAnts, ant ∈ Set.Icc lo hi) ∧
      ((simulate foodSources ants uninitialized n).bcast r).center ∈ Set.Icc lo hi := by
  have h := simulate_inArena hprocs hants hfood uninitialized r.pos n
  exact ⟨h.ants r, h.bcast r⟩

theorem stays_in_arena_three :
    (∀ ant ∈ (simulate ⟨5, []⟩ [1, 4, 7] (fun _ : Fin 2 => 0) 500 1).localAnts,
      ant ∈ Set.Icc (1 : ℚ) 7) ∧
    ((simulate ⟨5, []⟩ [1, 4, 7] (fun _ : Fin 2 => 0) 500).bcast 1).center ∈ Set.Icc (1 : ℚ) 7 := by
  apply stays_in_arena
  · norm_num
  · norm_num [FoodSources.all]
  · decide

end Nsds.Ants
