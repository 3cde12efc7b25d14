import Nsds.Spark.Cities

/-!
# How long the RDD loop runs

Cities of more than 1000 inhabitants grow without a bound, and all others never do. Nothing
overflows on the way to 100 million.
-/

namespace Nsds.Cities

open Lockstep MachineInt

variable {cities : List Int}

/-- What `Math.round` returns for a city. -/
def rounded (i : Int) : Int :=
  if i > 1000 then roundHalfUp (i * 1.01) else roundHalfUp (i * 0.99)

theorem grow_eq (i : Int) : grow i = wrap 32 (rounded i) := by
  unfold grow rounded
  split <;> rfl

/-- The loop of the program ends after some year. -/
def Terminates (cities : List Int) : Prop :=
  ∃ k loop, rddYear cities k = some loop ∧ ¬ loop.sum < 100000000

/-- No sum of some of the cities, in whatever order, and, if there is another iteration, no
conversion leaves the range of an `int`. -/
def NoOverflow (loop : RddLoop) : Prop :=
  (∀ part : List Int, part.Subperm loop.population → -2 ^ 31 ≤ part.sum ∧ part.sum < 2 ^ 31) ∧
  (loop.sum < 100000000 → ∀ i ∈ loop.population, -2 ^ 31 ≤ rounded i ∧ rounded i < 2 ^ 31)

/-- No sum of the year has wrapped. -/
structure RddLoop.Exact (loop : RddLoop) : Prop where
  nonempty : loop.population ≠ []
  nonneg : ∀ i ∈ loop.population, 0 ≤ i
  sum : loop.sum = loop.population.sum
  fits : loop.sum < 2 ^ 31

theorem RddLoop.Exact.small {loop : RddLoop} (h : loop.Exact) (hlt : loop.sum < 100000000) :
    ∀ i ∈ loop.population, 0 ≤ i ∧ i < 100000000 := by
  intro i hi
  have := le_sum h.nonneg hi
  have := h.sum
  exact ⟨h.nonneg i hi, by omega⟩

theorem RddLoop.Exact.next {loop : RddLoop} (h : loop.Exact) (hlt : loop.sum < 100000000) :
    ∃ loop', rddNext loop = some loop' ∧ loop'.population = loop.population.map grow ∧
      loop'.Exact := by
  have hle := sum_grow_le (h.small hlt)
  have hsum := h.sum
  refine ⟨_, rddNext_eq hlt h.nonempty (h.small hlt) (by omega), rfl, ?_⟩
  refine ⟨by simpa using h.nonempty, grow_nonneg (h.small hlt), rfl, ?_⟩
  dsimp only
  omega

theorem rddStart_exact (hne : cities ≠ []) (h0 : ∀ i ∈ cities, 0 ≤ i) (hsum : cities.sum < 2 ^ 31) :
    ∃ loop, rddStart cities = some loop ∧ loop.population = cities ∧ loop.Exact :=
  ⟨_, rddStart_eq hne h0 hsum, rfl, hne, h0, rfl, hsum⟩

theorem rddYear_exact (hne : cities ≠ []) (h0 : ∀ i ∈ cities, 0 ≤ i) (hsum : cities.sum < 2 ^ 31)
    {k : Nat} {loop : RddLoop} (h : rddYear cities k = some loop) : loop.Exact := by
  refine after_safe (fun s hs => ?_) (fun s t hexact ht => ?_) h
  · obtain ⟨start, hstart, -, hexact⟩ := rddStart_exact hne h0 hsum
    rw [hstart] at hs
    rwa [← Option.some.inj hs]
  · have hlt : s.sum < 100000000 := by
      by_contra hge
      rw [rddNext, if_neg hge] at ht
      simp at ht
    obtain ⟨t', ht', -, hexact'⟩ := hexact.next hlt
    rw [ht'] at ht
    rwa [← Option.some.inj ht]

/-! ## No overflow -/

theorem rounded_bounds {i : Int} (h0 : 0 ≤ i) : 0 ≤ rounded i ∧ rounded i ≤ 2 * i := by
  have hq : (0 : ℚ) ≤ i := by exact_mod_cast h0
  unfold rounded
  split
  · exact ⟨le_roundHalfUp (by push_cast; linarith), roundHalfUp_le (by push_cast; linarith)⟩
  · exact ⟨le_roundHalfUp (by push_cast; linarith), roundHalfUp_le (by push_cast; linarith)⟩

theorem sum_le_of_subperm {part l : List Int} (h : part.Subperm l) (hl : ∀ i ∈ l, 0 ≤ i) :
    0 ≤ part.sum ∧ part.sum ≤ l.sum := by
  obtain ⟨sub, hperm, hsub⟩ := h
  rw [← hperm.sum_eq]
  exact ⟨List.sum_nonneg fun i hi => hl i (hsub.subset hi), hsub.sum_le_sum hl⟩

theorem RddLoop.Exact.noOverflow {loop : RddLoop} (h : loop.Exact) : NoOverflow loop := by
  refine ⟨fun part hpart => ?_, fun hlt i hi => ?_⟩
  · have := sum_le_of_subperm hpart h.nonneg
    have := h.sum
    have := h.fits
    omega
  · have := rounded_bounds (h.nonneg i hi)
    have := h.small hlt i hi
    omega

/-! ## The last year -/

theorem lt_grow {i : Int} (hi : 1000 < i) (hsmall : i < 100000000) : i < grow i := by
  have hq : (1000 : ℚ) ≤ i := by exact_mod_cast hi.le
  have hlow : i + 1 ≤ rounded i := by
    unfold rounded
    rw [if_pos hi]
    exact le_roundHalfUp (by push_cast; linarith)
  have hhigh := (rounded_bounds (show 0 ≤ i by omega)).2
  rw [grow_eq, wrap_of_int] <;> omega

theorem lt_of_not_terminates (h : ¬ Terminates cities) {k : Nat} {loop : RddLoop}
    (hloop : rddYear cities k = some loop) : loop.sum < 100000000 := by
  by_contra hge
  exact h ⟨k, loop, hloop, hge⟩

section

variable (hne : cities ≠ []) (h0 : ∀ i ∈ cities, 0 ≤ i) (hsum : cities.sum < 2 ^ 31)
include hne h0 hsum

theorem rddYear_of_not_terminates (h : ¬ Terminates cities) {P : Nat → List Int → Prop}
    (hstart : P 0 cities)
    (hnext : ∀ n l, (∀ i ∈ l, 0 ≤ i ∧ i < 100000000) → P n l → P (n + 1) (l.map grow)) (k : Nat) :
    ∃ loop, rddYear cities k = some loop ∧ loop.Exact ∧ P k loop.population := by
  apply after_some (I := fun n (loop : RddLoop) => loop.Exact ∧ P n loop.population)
  · obtain ⟨loop, hloop, hcities, hexact⟩ := rddStart_exact hne h0 hsum
    exact ⟨loop, hloop, hexact, hcities ▸ hstart⟩
  · rintro n loop hloop ⟨hexact, hP⟩
    have hlt := lt_of_not_terminates h hloop
    obtain ⟨loop', hloop', hpopulation, hexact'⟩ := hexact.next hlt
    exact ⟨loop', hloop', hexact', hpopulation ▸ hnext n _ (hexact.small hlt) hP⟩

theorem terminates_of_large {i : Int} (hi : i ∈ cities) (hlarge : 1000 < i) :
    Terminates cities := by
  by_contra hforever
  obtain ⟨loop, hloop, hexact, j, hj, hgrown⟩ := rddYear_of_not_terminates hne h0 hsum hforever
    (P := fun n l => ∃ j ∈ l, 1000 + (n : Int) < j) ⟨i, hi, by simpa using hlarge⟩ (by
      rintro n l hsmall ⟨j, hj, hgrown⟩
      have := lt_grow (show 1000 < j by omega) (hsmall j hj).2
      exact ⟨grow j, List.mem_map_of_mem hj, by push_cast; omega⟩) 100000000
  have := (hexact.small (lt_of_not_terminates hforever hloop) j hj).2
  omega

end

theorem small_next {l : List Int} (h : ∀ i ∈ l, 0 ≤ i ∧ i ≤ 1000) :
    (∀ i ∈ l.map grow, 0 ≤ i ∧ i ≤ 1000) ∧ (l.map grow).sum ≤ l.sum := by
  have hgrow : ∀ i ∈ l, 0 ≤ grow i ∧ grow i ≤ i := fun i hi =>
    (grow_of_less (h i hi).1 (h i hi).2).2
  constructor
  · refine List.forall_mem_map.mpr fun i hi => ?_
    have := hgrow i hi
    have := h i hi
    omega
  · have hle := List.sum_le_sum fun i hi => (hgrow i hi).2
    simpa using hle

theorem not_terminates_of_small (hne : cities ≠ []) (hsum : cities.sum < 100000000)
    (hsmall : ∀ i ∈ cities, 0 ≤ i ∧ i ≤ 1000) : ¬ Terminates cities := by
  rintro ⟨k, loop, hloop, hge⟩
  have h0 : ∀ i ∈ cities, 0 ≤ i := fun i hi => (hsmall i hi).1
  have hsafe : loop.Exact ∧ loop.sum < 100000000 ∧ ∀ i ∈ loop.population, 0 ≤ i ∧ i ≤ 1000 := by
    refine after_safe (P := fun loop : RddLoop => loop.Exact ∧ loop.sum < 100000000 ∧
      ∀ i ∈ loop.population, 0 ≤ i ∧ i ≤ 1000) (fun s hs => ?_) (fun s t hs ht => ?_) hloop
    · obtain ⟨start, hstart, hcities, hexact⟩ := rddStart_exact hne h0 (by omega)
      obtain rfl := Option.some.inj (hstart.symm.trans hs)
      refine ⟨hexact, ?_, hcities ▸ hsmall⟩
      rwa [hexact.sum, hcities]
    · obtain ⟨hexact, hlt, hs⟩ := hs
      obtain ⟨t', ht', hpopulation, hexact'⟩ := hexact.next hlt
      obtain rfl := Option.some.inj (ht'.symm.trans ht)
      obtain ⟨hsmall', hle⟩ := small_next hs
      refine ⟨hexact', ?_, hpopulation ▸ hsmall'⟩
      rw [hexact'.sum, hpopulation]
      exact (hle.trans_eq hexact.sum.symm).trans_lt hlt
  exact hge hsafe.2.1

/-- The loop ends exactly if its first test ends it or a city grows, runs forever otherwise, and
never overflows. -/
theorem rdd_terminates_iff (hne : cities ≠ []) (h0 : ∀ i ∈ cities, 0 ≤ i)
    (hsum : cities.sum < 2 ^ 31) :
    (Terminates cities ↔ 100000000 ≤ cities.sum ∨ ∃ i ∈ cities, 1000 < i) ∧
    (¬ Terminates cities → ∀ k, (rddYear cities k).isSome) ∧
    ∀ k loop, rddYear cities k = some loop → NoOverflow loop := by
  refine ⟨⟨fun h => ?_, ?_⟩, fun h k => ?_,
    fun k loop h => (rddYear_exact hne h0 hsum h).noOverflow⟩
  · by_contra hsmall
    simp only [not_or, not_le, not_exists, not_and, not_lt] at hsmall
    exact not_terminates_of_small hne hsmall.1 (fun i hi => ⟨h0 i hi, hsmall.2 i hi⟩) h
  · rintro (hge | ⟨i, hi, hlarge⟩)
    · exact ⟨0, _, rddStart_eq hne h0 hsum, not_lt.mpr hge⟩
    · exact terminates_of_large hne h0 hsum hi hlarge
  · obtain ⟨loop, hloop, -⟩ :=
      rddYear_of_not_terminates hne h0 hsum h (P := fun _ _ => True) trivial
      (fun _ _ _ _ => trivial) k
    rw [hloop, Option.isSome_some]

theorem rdd_terminates_two : Terminates [7, 1001] ∧ ¬ Terminates [7, 1000] := by
  constructor
  · exact (rdd_terminates_iff (by simp) (by simp) (by simp)).1.mpr (by simp)
  · exact mt (rdd_terminates_iff (by simp) (by simp) (by simp)).1.mp (by simp)

end Nsds.Cities
