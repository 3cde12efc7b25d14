import Mathlib.Algebra.Order.BigOperators.Group.List
import Mathlib.Data.List.Perm.Basic
import Mathlib.Data.Rat.Floor
import Mathlib.Tactic.Linarith
import Nsds.Lib.Lockstep
import Nsds.Lib.MachineInt

/-!
# `spark/NSDS_spark_lab`, `cities/Cities.java`

The population of all cities, year by year, until it reaches 100 million: with an RDD,
and with a `Dataset` whose rows are split into two before the loop. Products are exact
here, and rounded half up.
-/

namespace Nsds.Cities

open Lockstep MachineInt

def roundHalfUp (x : ℚ) : Int := ⌊x + 1 / 2⌋

/-- `reduce` with a sum. It throws on no rows at all. -/
def sumOf (bits : Nat) : List Int → Option Int
  | [] => none
  | first :: rest => some (rest.foldl (fun a b => wrap bits (a + b)) first)

/-! ## The RDD -/

/-- `populations.reduce(Integer::sum)`, which throws on an empty RDD. -/
def sumPopulations (populations : List Int) : Option Int := sumOf 32 populations

/-- `(int)` keeps the lowest bits of the `long` that `Math.round` returns. -/
def grow (i : Int) : Int :=
  if i > 1000 then wrap 32 (roundHalfUp (i * 1.01)) else wrap 32 (roundHalfUp (i * 0.99))

/-- The variables of the loop over RDDs. -/
structure RddLoop where
  population : List Int
  sum : Int
deriving DecidableEq, Repr

def rddStart (population : List Int) : Option RddLoop :=
  (sumPopulations population).map fun sum => { population := population, sum := sum }

def rddNext (loop : RddLoop) : Option RddLoop :=
  if loop.sum < 100000000 then
    let population := loop.population.map grow
    (sumPopulations population).map fun sum => { population := population, sum := sum }
  else none

/-- The loop after `n` iterations, if there are so many. -/
def rddYear (population : List Int) (n : Nat) : Option RddLoop :=
  after rddNext (rddStart population) n

/-! ## The `Dataset` -/

/-- `agg(sum("population")).first().getLong(0)`. The sum of no rows is `null`, which
`getLong` throws on. -/
def aggSum (population : List Int) : Option Int := sumOf 64 population

/-- `cast("int")` of a `double` takes the nearest `int`. -/
def castInt (x : Int) : Int := max (-2 ^ 31) (min (2 ^ 31 - 1) x)

/-- The variables of the loop over datasets. -/
structure DatasetLoop where
  over1000 : List Int
  less1000 : List Int
  sumPopulations : Int
deriving DecidableEq, Repr

def datasetStart (citiesPopulation : List Int) : Option DatasetLoop :=
  (aggSum citiesPopulation).map fun sum => {
    over1000 := citiesPopulation.filter fun population => population > 1000
    less1000 := citiesPopulation.filter fun population => population < 1000
    sumPopulations := sum }

def datasetNext (loop : DatasetLoop) : Option DatasetLoop :=
  if loop.sumPopulations < 100000000 then
    let over1000 := loop.over1000.map fun population : Int =>
      castInt (roundHalfUp (population * 1.01))
    let less1000 := loop.less1000.map fun population : Int =>
      castInt (roundHalfUp (population * 0.99))
    (aggSum (over1000 ++ less1000)).map fun sum => {
      over1000 := over1000
      less1000 := less1000
      sumPopulations := sum }
  else none

/-- The loop after `n` iterations, if there are so many. -/
def datasetYear (citiesPopulation : List Int) (n : Nat) : Option DatasetLoop :=
  after datasetNext (datasetStart citiesPopulation) n

/-! ## Sums -/

theorem sumOf_eq {bits : Nat} {l : List Int} (hne : l ≠ [])
    (hfits : ∀ i ∈ l, wrap bits i = i) : sumOf bits l = some (wrap bits l.sum) := by
  obtain ⟨first, rest, rfl⟩ := List.exists_cons_of_ne_nil hne
  rw [sumOf, foldl_wrap _ _ _ (hfits first (List.mem_cons_self ..)), List.sum_cons]

theorem le_sum {l : List Int} (hl : ∀ i ∈ l, 0 ≤ i) {i : Int} (hi : i ∈ l) : i ≤ l.sum :=
  List.single_le_sum hl i hi

theorem sumOf_eq_sum {bits : Nat} {l : List Int} (hne : l ≠ []) (hl : ∀ i ∈ l, 0 ≤ i)
    (hsum : 2 * l.sum < 2 ^ bits) : sumOf bits l = some l.sum := by
  have hfits {i : Int} (h0 : 0 ≤ i) (hi : i ≤ l.sum) : wrap bits i = i :=
    wrap_of_fits (by omega) (by omega)
  rw [sumOf_eq hne fun i hi => hfits (hl i hi) (le_sum hl hi),
    hfits (List.sum_nonneg hl) le_rfl]

theorem sumOf_perm {bits : Nat} {l l' : List Int} (hperm : l'.Perm l) (hne : l ≠ [])
    (hl : ∀ i ∈ l, 0 ≤ i) (hsum : 2 * l.sum < 2 ^ bits) : sumOf bits l' = some l.sum := by
  rw [← hperm.sum_eq] at hsum ⊢
  exact sumOf_eq_sum (fun h => hne (h ▸ hperm).nil_eq.symm)
    (fun i hi => hl i (hperm.mem_iff.mp hi)) hsum

/-! ## One year of a city -/

theorem le_roundHalfUp {lo : Int} {x : ℚ} (h : (lo : ℚ) ≤ x) : lo ≤ roundHalfUp x :=
  Int.le_floor.mpr (by linarith)

theorem roundHalfUp_le {hi : Int} {x : ℚ} (h : x ≤ (hi : ℚ)) : roundHalfUp x ≤ hi := by
  have hlt : roundHalfUp x < hi + 1 := Int.floor_lt.mpr (by push_cast; linarith)
  omega

theorem castInt_of_fits {i : Int} (hlow : -2 ^ 31 ≤ i) (hhigh : i < 2 ^ 31) : castInt i = i := by
  unfold castInt
  omega

theorem grow_of_over {i : Int} (hi : 1000 < i) (hsmall : i < 100000000) :
    castInt (roundHalfUp (i * 1.01)) = grow i ∧ 1000 < grow i ∧ grow i ≤ 2 * i := by
  have hq : (0 : ℚ) ≤ i := by exact_mod_cast (show 0 ≤ i by omega)
  have hlow : i ≤ roundHalfUp (i * 1.01) := le_roundHalfUp (by linarith)
  have hhigh : roundHalfUp (i * 1.01) ≤ 2 * i := roundHalfUp_le (by push_cast; linarith)
  rw [grow, if_pos hi, castInt_of_fits, wrap_of_int] <;> omega

theorem grow_of_less {i : Int} (h0 : 0 ≤ i) (hi : i ≤ 1000) :
    castInt (roundHalfUp (i * 0.99)) = grow i ∧ 0 ≤ grow i ∧ grow i ≤ i := by
  have hq : (0 : ℚ) ≤ i := by exact_mod_cast h0
  have hlow : 0 ≤ roundHalfUp (i * 0.99) := le_roundHalfUp (by push_cast; linarith)
  have hhigh : roundHalfUp (i * 0.99) ≤ i := roundHalfUp_le (by linarith)
  rw [grow, if_neg (by omega), castInt_of_fits, wrap_of_int] <;> omega

theorem grow_bounds {i : Int} (h0 : 0 ≤ i) (hsmall : i < 100000000) :
    0 ≤ grow i ∧ grow i ≤ 2 * i := by
  rcases lt_or_ge 1000 i with hi | hi
  · have := (grow_of_over hi hsmall).2
    omega
  · have := (grow_of_less h0 hi).2
    omega

theorem grow_nonneg {l : List Int} (hl : ∀ i ∈ l, 0 ≤ i ∧ i < 100000000) :
    ∀ i ∈ l.map grow, 0 ≤ i :=
  List.forall_mem_map.mpr fun i hi => (grow_bounds (hl i hi).1 (hl i hi).2).1

theorem sum_grow_le {l : List Int} (hl : ∀ i ∈ l, 0 ≤ i ∧ i < 100000000) :
    (l.map grow).sum ≤ 2 * l.sum := by
  induction l with
  | nil => simp
  | cons i l ih =>
    obtain ⟨⟨h0, hsmall⟩, hrest⟩ := List.forall_mem_cons.mp hl
    have := grow_bounds h0 hsmall
    have := ih hrest
    rw [List.map_cons, List.sum_cons, List.sum_cons]
    omega

theorem datasetNext_eq {loop : DatasetLoop} (hlt : loop.sumPopulations < 100000000)
    (hover : ∀ i ∈ loop.over1000, 1000 < i ∧ i < 100000000)
    (hless : ∀ i ∈ loop.less1000, 0 ≤ i ∧ i < 1000) :
    datasetNext loop = (aggSum (loop.over1000.map grow ++ loop.less1000.map grow)).map
      fun sum => ⟨loop.over1000.map grow, loop.less1000.map grow, sum⟩ := by
  have hmapOver : (loop.over1000.map fun i : Int => castInt (roundHalfUp (i * 1.01))) =
      loop.over1000.map grow :=
    List.map_congr_left fun i hi => (grow_of_over (hover i hi).1 (hover i hi).2).1
  have hmapLess : (loop.less1000.map fun i : Int => castInt (roundHalfUp (i * 0.99))) =
      loop.less1000.map grow :=
    List.map_congr_left fun i hi => (grow_of_less (hless i hi).1 (hless i hi).2.le).1
  rw [datasetNext, if_pos hlt]
  simp only [hmapOver, hmapLess]

theorem rddNext_eq {loop : RddLoop} (hlt : loop.sum < 100000000) (hne : loop.population ≠ [])
    (hsmall : ∀ i ∈ loop.population, 0 ≤ i ∧ i < 100000000)
    (hsum : loop.population.sum < 100000000) :
    rddNext loop = some ⟨loop.population.map grow, (loop.population.map grow).sum⟩ := by
  have hle := sum_grow_le hsmall
  rw [rddNext, if_pos hlt]
  simp only [sumPopulations]
  rw [sumOf_eq_sum (by rwa [Ne, List.map_eq_nil_iff]) (grow_nonneg hsmall) (by omega),
    Option.map_some]

theorem sum_parts (f : Int → Int) (l : List Int) :
    (l.map f).sum = ((l.filter fun i => i > 1000).map f).sum +
      ((l.filter fun i => i < 1000).map f).sum + l.count 1000 * f 1000 := by
  induction l with
  | nil => simp
  | cons i l ih =>
    rw [List.map_cons, List.sum_cons, ih]
    rcases lt_trichotomy i 1000 with hi | rfl | hi
    · rw [List.filter_cons_of_neg (by simpa using hi.le),
        List.filter_cons_of_pos (by simpa using hi), List.count_cons_of_ne hi.ne, List.map_cons,
        List.sum_cons]
      ring
    · rw [List.filter_cons_of_neg (by simp), List.filter_cons_of_neg (by simp),
        List.count_cons_self]
      push_cast
      ring
    · rw [List.filter_cons_of_pos (by simpa using hi),
        List.filter_cons_of_neg (by simpa using hi.le), List.count_cons_of_ne hi.ne', List.map_cons,
        List.sum_cons]
      ring

/-! ## The two loops together -/

/-- The two loops have the same populations. -/
structure Together (s : RddLoop) (t : DatasetLoop) : Prop where
  perm : s.population.Perm (t.over1000 ++ t.less1000)
  large : ∀ i ∈ t.over1000, 1000 < i
  small : ∀ i ∈ t.less1000, 0 ≤ i ∧ i < 1000
  nonempty : s.population ≠ []
  sum : s.sum = s.population.sum
  total : t.sumPopulations = s.population.sum

variable {cities : List Int}

theorem rddStart_eq (hne : cities ≠ []) (h0 : ∀ i ∈ cities, 0 ≤ i) (hsum : cities.sum < 2 ^ 31) :
    rddStart cities = some ⟨cities, cities.sum⟩ := by
  rw [rddStart, sumPopulations, sumOf_eq_sum hne h0 (by omega), Option.map_some]

theorem datasetStart_eq (hne : cities ≠ []) (h0 : ∀ i ∈ cities, 0 ≤ i)
    (hsum : cities.sum < 2 ^ 63) :
    datasetStart cities = some ⟨cities.filter fun i => i > 1000, cities.filter fun i => i < 1000,
      cities.sum⟩ := by
  rw [datasetStart, aggSum, sumOf_eq_sum hne h0 (by omega), Option.map_some]

theorem together_start (hne : cities ≠ []) (h0 : ∀ i ∈ cities, 0 ≤ i) (hsum : cities.sum < 2 ^ 31)
    (h1000 : 1000 ∉ cities) : Option.Rel Together (rddStart cities) (datasetStart cities) := by
  rw [rddStart_eq hne h0 hsum, datasetStart_eq hne h0 (by omega)]
  refine .some ⟨?_, ?_, ?_, hne, rfl, rfl⟩
  · have hless : cities.filter (fun i => i < 1000) =
        cities.filter (fun i => !decide (i > 1000)) := by
      apply List.filter_congr
      intro i hi
      have hne : i ≠ 1000 := fun h => h1000 (h ▸ hi)
      rw [← decide_not, decide_eq_decide]
      omega
    rw [hless]
    exact (List.filter_append_perm _ _).symm
  · intro i hi
    exact of_decide_eq_true (List.mem_filter.mp hi).2
  · intro i hi
    obtain ⟨hmem, hlt⟩ := List.mem_filter.mp hi
    exact ⟨h0 i hmem, of_decide_eq_true hlt⟩

theorem together_next {s : RddLoop} {t : DatasetLoop} (h : Together s t) :
    Option.Rel Together (rddNext s) (datasetNext t) := by
  obtain ⟨hperm, hover, hless, hne, hsum, htotal⟩ := h
  rcases lt_or_ge s.population.sum 100000000 with hlt | hge
  · have h0 : ∀ i ∈ s.population, 0 ≤ i := by
      intro i hi
      rcases List.mem_append.mp (hperm.mem_iff.mp hi) with hi | hi
      · have := hover i hi
        omega
      · exact (hless i hi).1
    have hsmall : ∀ i ∈ s.population, 0 ≤ i ∧ i < 100000000 := fun i hi =>
      ⟨h0 i hi, (le_sum h0 hi).trans_lt hlt⟩
    have hover' : ∀ i ∈ t.over1000, 1000 < i ∧ i < 100000000 := fun i hi =>
      ⟨hover i hi, (hsmall i (hperm.mem_iff.mpr (List.mem_append_left _ hi))).2⟩
    have hperm' : (t.over1000.map grow ++ t.less1000.map grow).Perm (s.population.map grow) := by
      rw [← List.map_append]
      exact (hperm.map grow).symm
    have hne' : s.population.map grow ≠ [] := by rwa [Ne, List.map_eq_nil_iff]
    have hle := sum_grow_le hsmall
    rw [rddNext_eq (by omega) hne hsmall hlt, datasetNext_eq (by omega) hover' hless, aggSum,
      sumOf_perm hperm' hne' (grow_nonneg hsmall) (by omega), Option.map_some]
    refine .some ⟨hperm'.symm, ?_, ?_, hne', rfl, rfl⟩
    · exact List.forall_mem_map.mpr fun i hi => (grow_of_over (hover' i hi).1 (hover' i hi).2).2.1
    · refine List.forall_mem_map.mpr fun i hi => ?_
      have hgrow := (grow_of_less (hless i hi).1 (hless i hi).2.le).2
      have := (hless i hi).2
      omega
  · rw [rddNext, datasetNext, if_neg (by omega), if_neg (by omega)]
    exact .none

/-! ## When they agree -/

/-- The two loops have the same total in every year that both come to, and run equally long. -/
def Agree (cities : List Int) : Prop :=
  (∀ k s t, rddYear cities k = some s → datasetYear cities k = some t →
    s.sum = t.sumPopulations) ∧
  ∀ k, (rddYear cities k).isSome = (datasetYear cities k).isSome

/-- The first total fits an `int`, and, unless the loops stop at once, no city has exactly 1000
inhabitants. -/
def Splits (cities : List Int) : Prop :=
  cities.sum < 2 ^ 31 ∧ (cities.sum < 100000000 → 1000 ∉ cities)

theorem agree_of_rel {R : RddLoop → DatasetLoop → Prop}
    (hR : ∀ s t, R s t → s.sum = t.sumPopulations)
    (h : ∀ k, Option.Rel R (rddYear cities k) (datasetYear cities k)) : Agree cities := by
  refine ⟨?_, ?_⟩
  · intro k s t hs ht
    have hrel := h k
    rw [hs, ht] at hrel
    cases hrel with
    | some hst => exact hR s t hst
  · intro k
    have hrel := h k
    generalize rddYear cities k = a, datasetYear cities k = b at hrel ⊢
    cases hrel <;> rfl

theorem agree_of_splits (hne : cities ≠ []) (h0 : ∀ i ∈ cities, 0 ≤ i) (h : Splits cities) :
    Agree cities := by
  obtain ⟨hsum, h1000⟩ := h
  rcases lt_or_ge cities.sum 100000000 with hlt | hge
  · have hrel := after_rel (together_start hne h0 hsum (h1000 hlt)) fun _ _ => together_next
    exact agree_of_rel (fun _ _ h => h.sum.trans h.total.symm) hrel
  · -- both loops stop before their first iteration
    have hstart := rddStart_eq hne h0 hsum
    have hstart' := datasetStart_eq hne h0 (by omega)
    apply agree_of_rel (R := fun s t => s.sum = t.sumPopulations) (fun _ _ h => h)
    rintro (_ | k)
    · rw [rddYear, datasetYear, after, after, hstart, hstart']
      exact .some rfl
    · rw [rddYear, datasetYear, after_eq_none, after_eq_none]
      · exact .none
      · rw [hstart', Option.bind_some, datasetNext, if_neg (not_lt.mpr hge)]
      · rw [hstart, Option.bind_some, rddNext, if_neg (not_lt.mpr hge)]

theorem sum_lt_of_agree (hne : cities ≠ []) (hfits : ∀ i ∈ cities, 0 ≤ i ∧ i < 2 ^ 31)
    (hlong : cities.sum < 2 ^ 63) (h : Agree cities) : cities.sum < 2 ^ 31 := by
  have hstart : rddStart cities = some ⟨cities, wrap 32 cities.sum⟩ := by
    rw [rddStart, sumPopulations, sumOf_eq hne, Option.map_some]
    exact fun i hi => wrap_of_int (by have := hfits i hi; omega) (hfits i hi).2
  have hstart' := datasetStart_eq hne (fun i hi => (hfits i hi).1) hlong
  have hsum : wrap 32 cities.sum = cities.sum := h.1 0 _ _ hstart hstart'
  have hlt := wrap_int_lt cities.sum
  omega

/-! The first year of the two loops, when it is gone through. -/

theorem rddYear_one (hne : cities ≠ []) (h0 : ∀ i ∈ cities, 0 ≤ i)
    (hlt : cities.sum < 100000000) :
    rddYear cities 1 = some ⟨cities.map grow, (cities.map grow).sum⟩ := by
  have hsmall : ∀ i ∈ cities, 0 ≤ i ∧ i < 100000000 := fun i hi =>
    ⟨h0 i hi, (le_sum h0 hi).trans_lt hlt⟩
  rw [rddYear, after, after, rddStart_eq hne h0 (by omega), Option.bind_some,
    rddNext_eq hlt hne hsmall hlt]

theorem datasetYear_one (hne : cities ≠ []) (h0 : ∀ i ∈ cities, 0 ≤ i)
    (hlt : cities.sum < 100000000) :
    let over1000 := cities.filter fun i => i > 1000
    let less1000 := cities.filter fun i => i < 1000
    datasetYear cities 1 = (aggSum (over1000.map grow ++ less1000.map grow)).map
      fun sum => ⟨over1000.map grow, less1000.map grow, sum⟩ := by
  have hsmall : ∀ i ∈ cities, i < 100000000 := fun i hi => (le_sum h0 hi).trans_lt hlt
  rw [datasetYear, after, after, datasetStart_eq hne h0 (by omega), Option.bind_some,
    datasetNext_eq hlt]
  · intro i hi
    obtain ⟨hi, hover⟩ := List.mem_filter.mp hi
    exact ⟨of_decide_eq_true hover, hsmall i hi⟩
  · intro i hi
    obtain ⟨hi, hless⟩ := List.mem_filter.mp hi
    exact ⟨h0 i hi, of_decide_eq_true hless⟩

theorem not_mem_of_agree (hne : cities ≠ []) (h0 : ∀ i ∈ cities, 0 ≤ i)
    (hlt : cities.sum < 100000000) (h : Agree cities) : 1000 ∉ cities := by
  intro hmem
  have hsmall : ∀ i ∈ cities, 0 ≤ i ∧ i < 100000000 := fun i hi =>
    ⟨h0 i hi, (le_sum h0 hi).trans_lt hlt⟩
  have hyear := rddYear_one hne h0 hlt
  -- the cities that the two parts cover
  let over1000 := cities.filter fun i => i > 1000
  let less1000 := cities.filter fun i => i < 1000
  have hyear' : datasetYear cities 1 = (aggSum (over1000.map grow ++ less1000.map grow)).map
      fun sum => ⟨over1000.map grow, less1000.map grow, sum⟩ := datasetYear_one hne h0 hlt
  have hgrow : ∀ i ∈ over1000.map grow ++ less1000.map grow, 0 ≤ i := by
    rw [← List.map_append]
    apply grow_nonneg
    intro i hi
    rcases List.mem_append.mp hi with hi | hi
    · exact hsmall i (List.mem_of_mem_filter hi)
    · exact hsmall i (List.mem_of_mem_filter hi)
  have hparts := sum_parts grow cities
  have hcount : 0 < cities.count 1000 := List.count_pos_iff.mpr hmem
  have h990 : grow 1000 = 990 := by norm_num [grow, roundHalfUp, wrap]; rfl
  have hne' : over1000.map grow ++ less1000.map grow ≠ [] := by
    intro hnil
    have := h.2 1
    rw [hyear, hyear', hnil] at this
    cases this
  have hle := sum_grow_le hsmall
  have hsum : (over1000.map grow ++ less1000.map grow).sum + cities.count 1000 * 990 =
      (cities.map grow).sum := by
    rw [hparts, h990, List.sum_append]
  rw [aggSum, sumOf_eq_sum hne' hgrow (by omega), Option.map_some] at hyear'
  have hequal := h.1 1 _ _ hyear hyear'
  simp only at hequal
  omega

/-- The two loops agree if the first total is an `int` and no city is in neither of the parts, and,
for totals that are a `long`, only then. -/
theorem totals_agree (hne : cities ≠ []) (hfits : ∀ i ∈ cities, 0 ≤ i ∧ i < 2 ^ 31) :
    (Splits cities → Agree cities) ∧ (cities.sum < 2 ^ 63 → Agree cities → Splits cities) := by
  have h0 : ∀ i ∈ cities, 0 ≤ i := fun i hi => (hfits i hi).1
  refine ⟨agree_of_splits hne h0, fun hlong h => ⟨sum_lt_of_agree hne hfits hlong h, ?_⟩⟩
  exact fun hlt => not_mem_of_agree hne h0 hlt h

theorem totals_agree_three : Splits [999, 1001, 90000000] ∧ Agree [999, 1001, 90000000] := by
  have hsplits : Splits [999, 1001, 90000000] := by simp [Splits]
  exact ⟨hsplits, (totals_agree (by simp) (by simp)).1 hsplits⟩

/-- A city of exactly 1000 inhabitants is in neither part, and an `int` sum wraps around. -/
theorem thousand_lost : ¬ Agree [1000, 2000] ∧ ¬ Agree [2000000000, 2000000000] := by
  refine ⟨fun h => ?_, fun h => ?_⟩
  · exact not_mem_of_agree (by simp) (by simp) (by simp) h (by simp)
  · have := sum_lt_of_agree (by simp) (by simp) (by simp) h
    simp at this

end Nsds.Cities
