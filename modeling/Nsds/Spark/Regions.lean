import Nsds.Lib.Sql
import Nsds.Spark.Cities

/-!
# `cities/Cities.java`, Q1 and Q2

Both queries join the regions of the cities with their populations. All columns may be null.
-/

namespace Nsds.Cities

open MachineInt Pairs Sql

structure CityRegion (S : Type) where
  city : Option S
  region : Option S
deriving DecidableEq, Repr

structure CityPopulation (S : Type) where
  id : Option Int
  city : Option S
  population : Option Int
deriving DecidableEq, Repr

/-- A row of Q2. -/
structure RegionRow (S : Type) where
  region : Option S
  numCities : Nat
  maxPopulation : Option Int
deriving DecidableEq, Repr

variable {S : Type} [DecidableEq S]

def sameCity (region : CityRegion S) (population : CityPopulation S) : Option Bool :=
  equalTo region.city population.city

def joined (citiesRegions : List (CityRegion S)) (citiesPopulation : List (CityPopulation S)) :
    List (CityRegion S × CityPopulation S) :=
  innerJoin sameCity citiesRegions citiesPopulation

def q1 (citiesRegions : List (CityRegion S)) (citiesPopulation : List (CityPopulation S)) :
    List (GroupSum S) :=
  groupBySum (fun row => row.1.region) (fun row => row.2.population)
    (joined citiesRegions citiesPopulation)

/-- The populations of the cities of a region. -/
def populationsOf (citiesRegions : List (CityRegion S)) (citiesPopulation : List (CityPopulation S))
    (region : Option S) : List (Option Int) :=
  ((joined citiesRegions citiesPopulation).filter fun row => row.1.region = region).map
    fun row => row.2.population

/-- `agg(count("*"), max("population"))`. -/
def q2 (citiesRegions : List (CityRegion S)) (citiesPopulation : List (CityPopulation S)) :
    List (RegionRow S) :=
  ((joined citiesRegions citiesPopulation).map fun row => row.1.region).dedup.map fun region =>
    { region
      numCities := (populationsOf citiesRegions citiesPopulation region).length
      maxPopulation := maxOf (populationsOf citiesRegions citiesPopulation region) }

/-- How many regions a city has. -/
def numRegions (citiesRegions : List (CityRegion S)) (population : CityPopulation S) : Nat :=
  (filter (fun region => sameCity region population) citiesRegions).length

/-- What Q1 and Q2 say of one region. -/
structure Consistent (total : GroupSum S) (row : RegionRow S) : Prop where
  null : total.sum = none ↔ row.maxPopulation = none
  low : ∀ t m, total.sum = some t → row.maxPopulation = some m → m ≤ t
  high : ∀ t m, total.sum = some t → row.maxPopulation = some m → t ≤ row.numCities * m

/-- Q1 and Q2 list the same regions, once each, and count every row of the join. -/
structure Agreement (citiesRegions : List (CityRegion S))
    (citiesPopulation : List (CityPopulation S)) : Prop where
  same : ((q1 citiesRegions citiesPopulation).map GroupSum.key).Perm
    ((q2 citiesRegions citiesPopulation).map RegionRow.region)
  once : ((q2 citiesRegions citiesPopulation).map RegionRow.region).Nodup
  counted : ((q2 citiesRegions citiesPopulation).map RegionRow.numCities).sum =
    (joined citiesRegions citiesPopulation).length
  consistent : ∀ total ∈ q1 citiesRegions citiesPopulation,
    ∀ row ∈ q2 citiesRegions citiesPopulation, total.key = row.region → Consistent total row

variable {citiesRegions : List (CityRegion S)} {citiesPopulation : List (CityPopulation S)}

/-! ## One region -/

omit [DecidableEq S] in
theorem max_le_sum_le {numbers : List Int} {m : Int} (hmem : m ∈ numbers)
    (hmax : ∀ n ∈ numbers, n ≤ m) (hpos : ∀ n ∈ numbers, 0 ≤ n) :
    m ≤ numbers.sum ∧ numbers.sum ≤ numbers.length * m := by
  refine ⟨le_sum hpos hmem, ?_⟩
  simpa using List.sum_le_card_nsmul numbers m hmax

omit [DecidableEq S] in
theorem sum_eq_sum_of_fits {column : List (Option Int)} {t : Int} (hsum : sum column = some t)
    (hlow : 0 ≤ (column.filterMap id).sum) (hhigh : (column.filterMap id).sum < 2 ^ 63) :
    t = (column.filterMap id).sum := by
  have hall : (column.filterMap id).sum = (column.map fun a => a.getD 0).sum :=
    sum_filterMap id column
  have hgetD := getD_sum column
  rw [hsum, Option.getD_some, ← hall] at hgetD
  rw [hgetD]
  exact wrap_of_fits (by omega) (by omega)

omit [DecidableEq S] in
theorem maxOf_le_sum {column : List (Option Int)} {t m : Int} (hsum : sum column = some t)
    (hmax : maxOf column = some m) (hints : ∀ n, some n ∈ column → 0 ≤ n ∧ n < 2 ^ 31)
    (hlength : column.length ≤ 2 ^ 32) : m ≤ t ∧ t ≤ column.length * m := by
  obtain ⟨hmem, hgreatest⟩ := maxOf_eq_some_iff.mp hmax
  have hm := hints m hmem
  have hnumbers (n : Int) (hn : n ∈ column.filterMap id) : some n ∈ column := by simpa using hn
  obtain ⟨hlow, hhigh⟩ := max_le_sum_le (List.mem_filterMap.mpr ⟨some m, hmem, rfl⟩)
    (fun n hn => hgreatest n (hnumbers n hn)) (fun n hn => (hints n (hnumbers n hn)).1)
  have hrows : (column.filterMap id).length ≤ column.length := List.length_filterMap_le id column
  have hcount : ((column.filterMap id).length : Int) * m ≤ column.length * m :=
    mul_le_mul_of_nonneg_right (by exact_mod_cast hrows) hm.1
  have hfits : (column.length : Int) * m ≤ 2 ^ 32 * m :=
    mul_le_mul_of_nonneg_right (by exact_mod_cast hlength) hm.1
  rw [sum_eq_sum_of_fits hsum (by omega) (by omega)]
  exact ⟨hlow, by omega⟩

/-! ## All regions -/

theorem mem_q1 {total : GroupSum S} (h : total ∈ q1 citiesRegions citiesPopulation) :
    total.sum = sum (populationsOf citiesRegions citiesPopulation total.key) :=
  (mem_groupBySum.mp h).2

theorem mem_q2 {row : RegionRow S} (h : row ∈ q2 citiesRegions citiesPopulation) :
    row.numCities = (populationsOf citiesRegions citiesPopulation row.region).length ∧
      row.maxPopulation = maxOf (populationsOf citiesRegions citiesPopulation row.region) := by
  obtain ⟨region, -, rfl⟩ := List.mem_map.mp h
  exact ⟨rfl, rfl⟩

theorem map_region_q2 : (q2 citiesRegions citiesPopulation).map RegionRow.region =
    ((joined citiesRegions citiesPopulation).map fun row => row.1.region).dedup := by
  unfold q2
  rw [List.map_map]
  exact List.map_id _

theorem sum_numCities : ((q2 citiesRegions citiesPopulation).map RegionRow.numCities).sum =
    (joined citiesRegions citiesPopulation).length := by
  have hkeys : ∀ row ∈ joined citiesRegions citiesPopulation,
      row.1.region ∈ ((joined citiesRegions citiesPopulation).map fun row => row.1.region).dedup :=
    fun row hrow => List.mem_dedup.mpr (List.mem_map_of_mem (f := fun row => row.1.region) hrow)
  have hlength := length_by_key (List.nodup_dedup _) hkeys
  simpa [q2, populationsOf, Function.comp_def] using hlength

theorem mem_populationsOf {region : Option S} {n : Int}
    (h : some n ∈ populationsOf citiesRegions citiesPopulation region) :
    ∃ row ∈ citiesPopulation, row.population = some n := by
  obtain ⟨⟨_, row⟩, hrow, hn⟩ := List.mem_map.mp h
  exact ⟨row, (mem_innerJoin.mp (List.mem_filter.mp hrow).1).2.1, hn⟩

theorem length_populationsOf_le (region : Option S) :
    (populationsOf citiesRegions citiesPopulation region).length ≤
      (joined citiesRegions citiesPopulation).length := by
  unfold populationsOf
  rw [List.length_map]
  exact List.length_filter_le ..

/-- The queries agree on populations that are not negative, whatever is null. -/
theorem regions_agree
    (hints : ∀ row ∈ citiesPopulation, ∀ n, row.population = some n → 0 ≤ n ∧ n < 2 ^ 31)
    (hrows : (joined citiesRegions citiesPopulation).length ≤ 2 ^ 32) :
    Agreement citiesRegions citiesPopulation := by
  refine { same := ?_, once := ?_, counted := sum_numCities, consistent := ?_ }
  · rw [map_region_q2, q1, map_key_groupBySum]
  · rw [map_region_q2]
    exact List.nodup_dedup _
  · intro total htotal row hrow hkey
    obtain ⟨hnum, hmaxOf⟩ := mem_q2 hrow
    have hsumOf := mem_q1 htotal
    rw [hkey] at hsumOf
    have hcolumn (t m : Int) (ht : total.sum = some t) (hm : row.maxPopulation = some m) :
        m ≤ t ∧ t ≤ row.numCities * m := by
      rw [hnum]
      refine maxOf_le_sum (hsumOf.symm.trans ht) (hmaxOf.symm.trans hm) (fun n hn => ?_)
        ((length_populationsOf_le _).trans hrows)
      obtain ⟨city, hcity, hn⟩ := mem_populationsOf hn
      exact hints city hcity n hn
    exact {
      null := by rw [hsumOf, hmaxOf, sum_eq_none_iff, maxOf_eq_none_iff]
      low := fun t m ht hm => (hcolumn t m ht hm).1
      high := fun t m ht hm => (hcolumn t m ht hm).2 }

def threeRegions : List (CityRegion String) := [
  { city := some "Milan", region := some "Lombardy" },
  { city := some "Bergamo", region := some "Lombardy" },
  { city := some "Turin", region := some "Piedmont" }]

def threeCities : List (CityPopulation String) := [
  { id := some 1, city := some "Milan", population := some 1300000 },
  { id := some 2, city := some "Bergamo", population := some 120000 },
  { id := some 3, city := some "Turin", population := some 850000 }]

theorem regions_agree_three : Agreement threeRegions threeCities ∧
    q1 threeRegions threeCities = [
      { key := some "Lombardy", sum := some 1420000 },
      { key := some "Piedmont", sum := some 850000 }] := by
  refine ⟨regions_agree ?_ (by decide), by decide⟩
  simp [threeCities]

/-! ## The total population -/

theorem wrap_sum_q1 :
    wrap 64 ((q1 citiesRegions citiesPopulation).filterMap GroupSum.sum).sum =
      wrap 64 (citiesPopulation.map fun row =>
        (numRegions citiesRegions row : Int) * row.population.getD 0).sum := by
  unfold q1 joined numRegions
  rw [wrap_sum_groupBySum, sum_filterMap,
    sum_map_innerJoin _ _ _ fun row : CityPopulation S => row.population.getD 0]

/-- Where every city has one region, both loops of Q3 start at the sum of what Q1 lists, as a
number of 32 bits and of 64. -/
theorem q3_starts_at_q1 {populations : List Int} (hne : populations ≠ [])
    (hpopulations : citiesPopulation.map CityPopulation.population = populations.map some)
    (hints : ∀ n ∈ populations, -2 ^ 31 ≤ n ∧ n < 2 ^ 31)
    (hone : ∀ row ∈ citiesPopulation, numRegions citiesRegions row = 1) :
    (rddStart populations).map RddLoop.sum =
        some (wrap 32 ((q1 citiesRegions citiesPopulation).filterMap GroupSum.sum).sum) ∧
      (datasetStart populations).map DatasetLoop.sumPopulations =
        some (wrap 64 ((q1 citiesRegions citiesPopulation).filterMap GroupSum.sum).sum) := by
  have hsum : wrap 64 ((q1 citiesRegions citiesPopulation).filterMap GroupSum.sum).sum =
      wrap 64 populations.sum := by
    have hrow : ∀ row ∈ citiesPopulation,
        (numRegions citiesRegions row : Int) * row.population.getD 0 = row.population.getD 0 := by
      intro row hrow
      rw [hone row hrow, Nat.cast_one, one_mul]
    have hgetD := congrArg (List.map fun n => n.getD 0) hpopulations
    simp only [List.map_map, Function.comp_def, Option.getD_some, List.map_id'] at hgetD
    rw [wrap_sum_q1, List.map_congr_left hrow, hgetD]
  have hints32 (n : Int) (hn : n ∈ populations) : wrap 32 n = n :=
    wrap_of_int (hints n hn).1 (hints n hn).2
  have hints64 (n : Int) (hn : n ∈ populations) : wrap 64 n = n := by
    have := hints n hn
    exact wrap_of_fits (by omega) (by omega)
  constructor
  · rw [rddStart, sumPopulations, sumOf_eq hne hints32, Option.map_some, Option.map_some,
      ← wrap_int_long, ← hsum, wrap_int_long]
  · rw [datasetStart, aggSum, sumOf_eq hne hints64, Option.map_some, Option.map_some, hsum]

theorem q3_starts_at_q1_three :
    (rddStart [1300000, 120000, 850000]).map RddLoop.sum =
        some (wrap 32 ((q1 threeRegions threeCities).filterMap GroupSum.sum).sum) ∧
      (datasetStart [1300000, 120000, 850000]).map DatasetLoop.sumPopulations =
        some (wrap 64 ((q1 threeRegions threeCities).filterMap GroupSum.sum).sum) :=
  q3_starts_at_q1 (by decide) (by decide) (by decide) (by decide)

end Nsds.Cities
