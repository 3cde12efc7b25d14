import Mathlib.Data.List.Find
import Mathlib.Logic.Function.Basic
import Nsds.Lib.Pairs
import Nsds.Lib.Sql

/-!
# Aggregation of a stream in batches

A stream comes in batches, however it is cut. After every batch the groups that got a new row
are printed, each with the value it has by then.
-/

namespace MicroBatch

open MachineInt Pairs

/-- How the rows of a group are put together, one after the other. -/
structure Aggregate (ν β : Type) where
  init : β
  add : β → ν → β

/-- The value of a group with these rows. -/
def Aggregate.of {ν β : Type} (agg : Aggregate ν β) (values : List ν) : β :=
  values.foldl agg.add agg.init

/-- The number of rows. -/
def count (ν : Type) : Aggregate ν Nat where
  init := 0
  add n _ := n + 1

theorem count_of {ν : Type} (values : List ν) : (count ν).of values = values.length := by
  suffices h : ∀ n, values.foldl (count ν).add n = n + values.length by
    exact (h 0).trans (Nat.zero_add _)
  induction values with
  | nil => simp
  | cons v values ih =>
    intro n
    rw [List.foldl_cons, ih, List.length_cons]
    simp only [count]
    omega

/-- The sum of a column that may have nulls. -/
def sum : Aggregate (Option Int) (Option Int) where
  init := none
  add total a := match a with
    | none => total
    | some n => some (wrap 64 (total.getD 0 + n))

theorem sum_of (column : List (Option Int)) : sum.of column = Sql.sum column := by
  induction column using List.reverseRecOn with
  | nil => rfl
  | append_singleton column a ih =>
    rw [Sql.sum_append_singleton, ← ih, Aggregate.of, List.foldl_append]
    rfl

variable {κ ν β : Type} [DecidableEq κ] (agg : Aggregate ν β)

/-- A row is added to the value of its key. -/
def absorb (table : κ → Option β) (row : κ × ν) : κ → Option β :=
  Function.update table row.1 (some (agg.add ((table row.1).getD agg.init) row.2))

/-- What a batch makes of the table of results, and what is printed then. -/
def trigger (table : κ → Option β) (batch : List (κ × ν)) : (κ → Option β) × List (κ × β) :=
  let table := batch.foldl (absorb agg) table
  (table, (batch.map Prod.fst).dedup.filterMap fun key =>
    (table key).map fun value => (key, value))

/-- What every trigger prints. -/
def run (table : κ → Option β) : List (List (κ × ν)) → List (List (κ × β))
  | [] => []
  | batch :: batches => (trigger agg table batch).2 :: run (trigger agg table batch).1 batches

/-- What the most recent row for `key` shows. -/
def latest (printed : List (List (κ × β))) (key : κ) : Option β :=
  (printed.flatten.reverse.find? fun row => row.1 = key).map Prod.snd

/-! ## The table of results -/

/-- The value of every group that has a row. -/
def results (rows : List (κ × ν)) (key : κ) : Option β :=
  match valuesOf rows key with
  | [] => none
  | values => some (agg.of values)

variable {agg} {rows : List (κ × ν)} {key : κ}

theorem results_eq (rows : List (κ × ν)) (key : κ) : results agg rows key =
    if valuesOf rows key = [] then none else some (agg.of (valuesOf rows key)) := by
  unfold results
  split
  · next h => rw [if_pos h]
  · next h => rw [if_neg h]

theorem results_eq_some (h : valuesOf rows key ≠ []) :
    results agg rows key = some (agg.of (valuesOf rows key)) := by
  rw [results_eq, if_neg h]

theorem getD_results : (results agg rows key).getD agg.init = agg.of (valuesOf rows key) := by
  rw [results_eq]
  split
  · next h => rw [h]; rfl
  · rfl

theorem absorb_results (row : κ × ν) :
    absorb agg (results agg rows) row = results agg (rows ++ [row]) := by
  funext key
  unfold absorb
  rcases eq_or_ne key row.1 with rfl | hne
  · have hvalues : valuesOf (rows ++ [row]) row.1 = valuesOf rows row.1 ++ [row.2] := by
      rw [valuesOf_append]
      simp [valuesOf]
    rw [Function.update_self, getD_results, results_eq_some (by simp [hvalues]), hvalues]
    simp [Aggregate.of, List.foldl_append]
  · have hvalues : valuesOf (rows ++ [row]) key = valuesOf rows key := by
      rw [valuesOf_append]
      simp [valuesOf, hne.symm]
    rw [Function.update_of_ne hne]
    unfold results
    rw [hvalues]

theorem foldl_absorb (batch : List (κ × ν)) :
    batch.foldl (absorb agg) (results agg rows) = results agg (rows ++ batch) := by
  induction batch generalizing rows with
  | nil => rw [List.append_nil, List.foldl_nil]
  | cons row batch ih => rw [List.foldl_cons, absorb_results, ih, List.append_assoc]; rfl

/-! ## What is printed -/

theorem valuesOf_eq_nil_iff : valuesOf rows key = [] ↔ key ∉ rows.map Prod.fst := by
  simp only [valuesOf, List.map_eq_nil_iff, List.filter_eq_nil_iff, decide_eq_true_eq, List.mem_map,
    not_exists, not_and]

theorem latest_cons (out : List (κ × β)) (printed : List (List (κ × β))) (key : κ) :
    latest (out :: printed) key = (latest printed key).or (latest [out] key) := by
  unfold latest
  rw [List.flatten_cons, List.reverse_append, List.find?_append]
  cases printed.flatten.reverse.find? fun row => row.1 = key <;> simp

theorem latest_rows (keys : List κ) (value : κ → Option β) (key : κ) :
    latest [keys.filterMap fun k => (value k).map fun v => (k, v)] key =
      if key ∈ keys then value key else none := by
  have hmem (row : κ × β) : row ∈ keys.filterMap (fun k => (value k).map fun v => (k, v)) ↔
      row.1 ∈ keys ∧ value row.1 = some row.2 := by
    obtain ⟨k, v⟩ := row
    simp only [List.mem_filterMap, Option.map_eq_some_iff, Prod.mk.injEq]
    constructor
    · rintro ⟨k', hk', v', hv', rfl, rfl⟩
      exact ⟨hk', hv'⟩
    · rintro ⟨hk, hv⟩
      exact ⟨k, hk, v, hv, rfl, rfl⟩
  unfold latest
  rw [List.flatten_singleton]
  rcases hfind : List.find? _ _ with _ | row
  · rw [List.find?_eq_none] at hfind
    simp only [List.mem_reverse, hmem, decide_eq_true_eq] at hfind
    split
    · next hkey =>
      rcases hvalue : value key with _ | v
      · rfl
      · exact absurd rfl (hfind (key, v) ⟨hkey, hvalue⟩)
    · rfl
  · obtain ⟨hkey, hrow⟩ := (hmem row).mp (List.mem_reverse.mp (List.mem_of_find?_eq_some hfind))
    obtain rfl : row.1 = key := by simpa using List.find?_some hfind
    rw [if_pos hkey, hrow]
    rfl

theorem latest_trigger (batch : List (κ × ν)) (key : κ) :
    latest [(trigger agg (results agg rows) batch).2] key =
      if valuesOf batch key = [] then none else results agg (rows ++ batch) key := by
  unfold trigger
  simp only [foldl_absorb]
  rw [latest_rows]
  simp only [List.mem_dedup, valuesOf_eq_nil_iff, ite_not]

theorem latest_run (batches : List (List (κ × ν))) :
    latest (run agg (results agg rows) batches) key =
      if valuesOf batches.flatten key = [] then none
      else results agg (rows ++ batches.flatten) key := by
  induction batches generalizing rows with
  | nil => simp [run, latest, valuesOf]
  | cons batch batches ih =>
    have htable : (trigger agg (results agg rows) batch).1 = results agg (rows ++ batch) :=
      foldl_absorb batch
    rw [run, latest_cons, latest_trigger, htable, ih, List.flatten_cons, valuesOf_append,
      ← List.append_assoc]
    by_cases hrest : valuesOf batches.flatten key = []
    · have hsame : results agg (rows ++ batch ++ batches.flatten) key =
          results agg (rows ++ batch) key := by
        unfold results
        rw [valuesOf_append, hrest, List.append_nil]
      rw [if_pos hrest, Option.none_or, hrest, List.append_nil, hsame]
    · have hall : valuesOf (rows ++ batch ++ batches.flatten) key ≠ [] := by
        rw [valuesOf_append]
        simp [hrest]
      have hboth : ¬(valuesOf batch key ++ valuesOf batches.flatten key = []) := by simp [hrest]
      rw [if_neg hrest, if_neg hboth, results_eq_some hall, Option.some_or]

/-- The most recent row of every group shows its value over everything so far, however the
stream was cut into batches. -/
theorem latest_eq_results (batches : List (List (κ × ν))) (key : κ) :
    latest (run agg (fun _ => none) batches) key = results agg batches.flatten key := by
  have hrun := @latest_run κ ν β _ agg [] key batches
  have hnone : results agg ([] : List (κ × ν)) = fun _ => none := rfl
  rw [hnone, List.nil_append] at hrun
  rw [hrun, results_eq]
  split <;> rfl

theorem find_latest {printed : List (List (κ × β))} {p : κ × β → Bool}
    (hp : ∀ row ∈ printed.flatten, p row = decide (row.1 = key)) :
    printed.flatten.reverse.find? p = (latest printed key).map fun value => (key, value) := by
  unfold latest
  rw [List.find?_congr fun row hrow => hp row (List.mem_reverse.mp hrow)]
  rcases hrow : List.find? _ _ with _ | ⟨k, value⟩
  · rfl
  · obtain rfl : k = key := by simpa using List.find?_some hrow
    rfl

theorem mem_run {table : κ → Option β} {batches : List (List (κ × ν))} {row : κ × β}
    (h : row ∈ (run agg table batches).flatten) : row.1 ∈ batches.flatten.map Prod.fst := by
  induction batches generalizing table with
  | nil => simp [run] at h
  | cons batch batches ih =>
    rw [run, List.flatten_cons, List.mem_append] at h
    rw [List.flatten_cons, List.map_append, List.mem_append]
    rcases h with h | h
    · unfold trigger at h
      simp only [List.mem_filterMap, List.mem_dedup, Option.map_eq_some_iff] at h
      obtain ⟨key, hkey, _, -, rfl⟩ := h
      exact .inl hkey
    · exact .inr (ih h)

/-! ## Counts -/

theorem latest_count (batches : List (List (κ × ν))) (key : κ) :
    latest (run (count ν) (fun _ => none) batches) key =
      if valuesOf batches.flatten key = [] then none
      else some (valuesOf batches.flatten key).length := by
  rw [latest_eq_results, results_eq, count_of]

theorem getD_latest_count (batches : List (List (κ × ν))) (key : κ) :
    (latest (run (count ν) (fun _ => none) batches) key).getD 0 =
      (valuesOf batches.flatten key).length := by
  rw [latest_count]
  split
  · next h => rw [h]; rfl
  · rfl

theorem sum_latest_count (batches : List (List (κ × ν))) :
    ((batches.flatten.map Prod.fst).dedup.map fun key =>
      (latest (run (count ν) (fun _ => none) batches) key).getD 0).sum =
      batches.flatten.length := by
  simp only [getD_latest_count]
  generalize batches.flatten = rows
  have hkeys : ∀ row ∈ rows, row.1 ∈ (rows.map Prod.fst).dedup :=
    fun row hrow => List.mem_dedup.mpr (List.mem_map_of_mem hrow)
  have hlength := length_by_key (List.nodup_dedup _) hkeys
  simpa [valuesOf] using hlength

end MicroBatch
