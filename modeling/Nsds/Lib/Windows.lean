import Mathlib.Algebra.Ring.Int.Defs
import Mathlib.Algebra.Ring.Nat
import Mathlib.Data.List.Range
import Mathlib.Data.List.Nodup
import Nsds.Lib.Pairs

/-!
# Sliding windows

Windows of a length start at every multiple of a slide. A window has its start and not its end.
-/

namespace Windows

/-- The starts of the windows that a time is in, from the last one back. -/
def windows (length slide : Nat) (time : Int) : List Int :=
  let lastStart := time - (time + slide) % slide
  ((List.range ((length + slide - 1) / slide)).map fun i : Nat => lastStart - i * slide).filter
    fun start => start ≤ time ∧ time < start + length

variable {length slide : Nat} {time start : Int}

theorem lastStart_eq (slide : Nat) (time : Int) :
    time - (time + slide) % slide = slide * (time / slide) := by
  have hdiv := Int.emod_add_mul_ediv time slide
  rw [Int.add_emod_right]
  omega

theorem lastStart_bounds (hslide : 0 < slide) (time : Int) :
    slide * (time / slide) ≤ time ∧ time < slide * (time / slide) + slide := by
  have hdiv := Int.emod_add_mul_ediv time slide
  have hnonneg := Int.emod_nonneg time (by omega : (slide : Int) ≠ 0)
  have hlt := Int.emod_lt_of_pos time (by omega : (0 : Int) < slide)
  omega

theorem mem_windows (hslide : 0 < slide) : start ∈ windows length slide time ↔
    (slide : Int) ∣ start ∧ start ≤ time ∧ time < start + length := by
  obtain ⟨hle, -⟩ := lastStart_bounds hslide time
  unfold windows
  simp only [lastStart_eq, List.mem_filter, List.mem_map, List.mem_range, decide_eq_true_eq]
  constructor
  · rintro ⟨⟨i, -, rfl⟩, hstart⟩
    exact ⟨Int.dvd_sub (Int.dvd_mul_right ..) (Int.dvd_mul_left ..), hstart⟩
  · rintro ⟨⟨m, rfl⟩, hstart, hend⟩
    have hm : m ≤ time / slide := by
      rw [Int.le_ediv_iff_mul_le (by omega), Int.mul_comm]
      exact hstart
    have hindex :
        ((time / slide - m).toNat : Int) * slide = slide * (time / slide) - slide * m := by
      rw [Int.toNat_of_nonneg (by omega), Int.sub_mul, Int.mul_comm, Int.mul_comm m]
    refine ⟨⟨(time / slide - m).toNat, ?_, by rw [hindex]; omega⟩, hstart, hend⟩
    have hbefore : (time / slide - m).toNat * slide + 1 ≤ length := by
      rw [← Int.natCast_mul] at hindex
      omega
    rw [Nat.lt_iff_add_one_le, Nat.le_div_iff_mul_le hslide, Nat.add_mul]
    omega

theorem nodup_windows (hslide : 0 < slide) : (windows length slide time).Nodup := by
  unfold windows
  apply List.Nodup.filter
  apply List.nodup_range.map
  intro i j hij
  have hmul : (i : Int) * slide = j * slide := by simpa using hij
  exact Int.ofNat_inj.mp (Int.eq_of_mul_eq_mul_right (by omega) hmul)

theorem length_windows (hslide : 0 < slide) (n : Nat) :
    (windows (n * slide) slide time).length = n := by
  obtain ⟨hle, hlt⟩ := lastStart_bounds hslide time
  have hcount : (n * slide + slide - 1) / slide = n := by
    rw [Nat.add_sub_assoc hslide, Nat.mul_comm, Nat.mul_add_div hslide,
      Nat.div_eq_of_lt (by omega), Nat.add_zero]
  unfold windows
  simp only [lastStart_eq, hcount]
  rw [List.filter_eq_self.mpr, List.length_map, List.length_range]
  intro start hstart
  obtain ⟨i, hi, rfl⟩ := List.mem_map.mp hstart
  have hi : i + 1 ≤ n := List.mem_range.mp hi
  have hmul : ((i : Int) + 1) * slide ≤ n * slide := by
    exact_mod_cast Nat.mul_le_mul_right slide hi
  have hpos : 0 ≤ (i : Int) * slide := Int.mul_nonneg (by omega) (by omega)
  rw [Int.add_mul] at hmul
  simp only [decide_eq_true_eq, Int.natCast_mul]
  omega

/-! ## Rows in windows -/

section

variable {α κ ν : Type} {rows : List α}

/-- Every row once for each window it is in, under that window and its own key. -/
def windowed (length slide : Nat) (time : α → Int) (key : α → κ) (value : α → ν) (rows : List α) :
    List ((Int × κ) × ν) :=
  rows.flatMap fun row => (windows length slide (time row)).map fun start =>
    ((start, key row), value row)

theorem windowed_flatten (length slide : Nat) (time : α → Int) (key : α → κ) (value : α → ν)
    (batches : List (List α)) : windowed length slide time key value batches.flatten =
      (batches.map (windowed length slide time key value)).flatten := by
  induction batches with
  | nil => rfl
  | cons batch batches ih =>
    rw [List.flatten_cons, List.map_cons, List.flatten_cons, ← ih]
    exact List.flatMap_append

theorem length_windowed (hslide : 0 < slide) (n : Nat) (time : α → Int) (key : α → κ)
    (value : α → ν) :
    (windowed (n * slide) slide time key value rows).length = n * rows.length := by
  induction rows with
  | nil => rfl
  | cons row rows ih =>
    unfold windowed at ih ⊢
    rw [List.flatMap_cons, List.length_append, ih, List.length_map, length_windows hslide,
      List.length_cons, Nat.mul_succ, Nat.add_comm]

variable [DecidableEq κ]

theorem valuesOf_row {starts : List Int} (hnodup : starts.Nodup) (start : Int) (key k : κ)
    (value : ν) : Pairs.valuesOf (starts.map fun s => ((s, key), value)) (start, k) =
      if start ∈ starts ∧ key = k then [value] else [] := by
  unfold Pairs.valuesOf
  rw [List.filter_map, List.map_map]
  by_cases hkey : key = k
  · have hfilter : starts.filter (fun s => s = start) =
        if start ∈ starts then [start] else [] := by
      rw [List.filter_eq, hnodup.count]
      split <;> rfl
    simp only [hkey, Function.comp_def, Prod.mk.injEq, and_true, hfilter]
    split <;> rfl
  · simp [hkey, Function.comp_def]

theorem valuesOf_windowed (hslide : 0 < slide) (time : α → Int) (key : α → κ) (value : α → ν)
    (start : Int) (k : κ) :
    Pairs.valuesOf (windowed length slide time key value rows) (start, k) =
      if (slide : Int) ∣ start then
        (rows.filter fun row =>
          start ≤ time row ∧ time row < start + length ∧ key row = k).map value
      else [] := by
  have hmem (row : α) : (start ∈ windows length slide (time row) ∧ key row = k) ↔
      (slide : Int) ∣ start ∧ start ≤ time row ∧ time row < start + length ∧ key row = k := by
    rw [mem_windows hslide, and_assoc, and_assoc]
  induction rows with
  | nil => simp [windowed, Pairs.valuesOf]
  | cons row rows ih =>
    unfold windowed at ih ⊢
    rw [List.flatMap_cons, Pairs.valuesOf_append, ih, valuesOf_row (nodup_windows hslide)]
    simp only [hmem]
    by_cases hdvd : (slide : Int) ∣ start
    · simp only [hdvd, true_and, if_true]
      by_cases hrow : start ≤ time row ∧ time row < start + length ∧ key row = k
      · simp [hrow]
      · rw [if_neg hrow, List.filter_cons_of_neg (by simpa using hrow), List.nil_append]
    · simp [hdvd]

end

end Windows
