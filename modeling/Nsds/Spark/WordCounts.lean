import Nsds.Lib.MicroBatch
import Nsds.Spark.WordCountModified

/-!
# The other word counts of `spark/NSDS_spark_tutorial`

`WordCount.java` counts the words of a file, and `StructuredStreamingWordCount.java`,
`StreamingWordCount.java` and `StreamingWordCountWithState.java` those of a stream of lines.
-/

namespace Nsds.WordCounts

open MachineInt MicroBatch Pairs Split WordCountModified

def words (lines : List JavaString) : List JavaString := lines.flatMap (split space)

/-- `mapToPair(s -> new Tuple2<>(s, 1)).reduceByKey((a, b) -> a + b)`. -/
def countWords (words : List JavaString) : List (JavaString × Int) :=
  reduceByKey (fun a b => wrap 32 (a + b)) (words.map fun word => (word, 1))

def wordCount (lines : List JavaString) : List (JavaString × Int) := countWords (words lines)

/-- `groupBy("value").count()`, in mode `update`. -/
def structuredStreaming (batches : List (List JavaString)) : List (List (JavaString × Nat)) :=
  run (count Unit) (fun _ => none) (batches.map fun lines => (words lines).map fun w => (w, ()))

/-! ## `StreamingWordCount.java`

There is a batch for every second, and every five seconds a window over the last ten.
-/

/-- The lines of the window that ends after `n` times five seconds. -/
def window (seconds : List (List JavaString)) (n : Nat) : List JavaString :=
  ((seconds.take (5 * n)).drop (5 * n - 10)).flatten

/-- What is shown after `n` seconds. -/
def streaming (locale : WordCountModified.Locale) (seconds : List (List JavaString)) (n : Nat) :
    List (JavaString × Int) :=
  countWords (words ((window seconds n).map locale.toLowerCase))

/-! ## `StreamingWordCountWithState.java` -/

/-- `count` is present, as every word comes with a 1. -/
def mapFunction (state : JavaString → Option Int) (word : JavaString) :
    (JavaString → Option Int) × (JavaString × Int) :=
  let sum := wrap 32 (1 + (state word).getD 0)
  (Function.update state word (some sum), (word, sum))

/-- The words of a batch, in the order in which they are processed. -/
def mapWithState (state : JavaString → Option Int) :
    List JavaString → (JavaString → Option Int) × List (JavaString × Int)
  | [] => (state, [])
  | word :: rest =>
    let (state, row) := mapFunction state word
    let (state, rows) := mapWithState state rest
    (state, row :: rows)

def withState (state : JavaString → Option Int) :
    List (List JavaString) → List (List (JavaString × Int))
  | [] => []
  | batch :: batches =>
    (mapWithState state batch).2 :: withState (mapWithState state batch).1 batches

/-! ## Counting words -/

theorem valuesOf_map {ν : Type} (words : List JavaString) (w : JavaString) (v : ν) :
    valuesOf (words.map fun word => (word, v)) w = List.replicate (words.count w) v := by
  unfold valuesOf
  induction words with
  | nil => rfl
  | cons word words ih =>
    by_cases h : word = w
    · simp_all [List.replicate_succ]
    · simp_all

theorem mem_countWords {words : List JavaString} {w : JavaString} {n : Int} :
    (w, n) ∈ countWords words ↔ w ∈ words ∧ n = wrap 32 (words.count w) := by
  unfold countWords
  rw [mem_reduceByKey, valuesOf_map, reduce_replicate, ← List.count_pos_iff]
  split
  · simp [*]
  · rename_i hne
    rw [Option.some.injEq, eq_comm, iff_and_self]
    exact fun _ => Nat.pos_of_ne_zero hne

theorem words_append (lines lines' : List JavaString) :
    words (lines ++ lines') = words lines ++ words lines' := List.flatMap_append

theorem words_flatten (batches : List (List JavaString)) :
    words batches.flatten = (batches.map words).flatten := by
  induction batches with
  | nil => rfl
  | cons batch batches ih =>
    rw [List.flatten_cons, words_append, ih, List.map_cons, List.flatten_cons]

theorem map_words_flatten {ν : Type} (batches : List (List JavaString)) (v : ν) :
    (batches.map fun lines => (words lines).map fun w => (w, v)).flatten =
      (words batches.flatten).map fun w => (w, v) := by
  rw [words_flatten, List.map_flatten, List.map_map]
  rfl

/-! ## The stream that is grouped -/

theorem latest_structuredStreaming (batches : List (List JavaString)) (w : JavaString) :
    latest (structuredStreaming batches) w =
      if w ∈ words batches.flatten then some ((words batches.flatten).count w) else none := by
  unfold structuredStreaming
  rw [latest_count, map_words_flatten, valuesOf_map]
  simp only [List.replicate_eq_nil_iff, List.count_eq_zero, List.length_replicate, ite_not]

/-- However the lines are cut into batches, the stream shows in the end what `WordCount.java`
makes of all lines, but for numbers that do not fit an `int`. -/
theorem wordCount_iff_latest (batches : List (List JavaString)) (w : JavaString) (n : Int) :
    (w, n) ∈ wordCount batches.flatten ↔
      ∃ m : Nat, latest (structuredStreaming batches) w = some m ∧ n = wrap 32 m := by
  unfold wordCount
  rw [mem_countWords, latest_structuredStreaming]
  split
  · next h => simp [h]
  · next h => simp [h]

/-! ## The stream in windows -/

variable {locale : WordCountModified.Locale} {w : JavaString}

/-- How often `w` was in the first `n` seconds. -/
def occurrences (locale : WordCountModified.Locale) (seconds : List (List JavaString))
    (w : JavaString) (n : Nat) : Nat :=
  (words ((seconds.take n).flatten.map locale.toLowerCase)).count w

/-- What a window shows for `w`. -/
def shown (rows : List (JavaString × Int)) (w : JavaString) : Int :=
  ((rows.find? fun row => row.1 = w).map Prod.snd).getD 0

theorem shown_countWords {words : List JavaString} (hfits : words.count w < 2 ^ 31) :
    shown (countWords words) w = words.count w := by
  unfold shown
  rcases hrow : List.find? _ _ with _ | ⟨w', n⟩
  · rw [List.find?_eq_none] at hrow
    have hnot : w ∉ words := by
      intro hmem
      simpa using hrow (w, wrap 32 (words.count w)) (mem_countWords.mpr ⟨hmem, rfl⟩)
    simp [List.count_eq_zero.mpr hnot]
  · obtain rfl : w' = w := by simpa using List.find?_some hrow
    obtain ⟨-, hn⟩ := mem_countWords.mp (List.mem_of_find?_eq_some hrow)
    rw [wrap_of_int (by omega) (by omega)] at hn
    simp [hn]

theorem count_window (locale : WordCountModified.Locale) (seconds : List (List JavaString))
    (w : JavaString) (n : Nat) :
    occurrences locale seconds w (5 * n - 10) +
        (words ((window seconds n).map locale.toLowerCase)).count w =
      occurrences locale seconds w (5 * n) := by
  have hsplit : (seconds.take (5 * n)).take (5 * n - 10) ++
      (seconds.take (5 * n)).drop (5 * n - 10) = seconds.take (5 * n) := List.take_append_drop ..
  rw [List.take_take, Nat.min_eq_left (by omega)] at hsplit
  unfold occurrences window
  rw [← List.count_append, ← words_append, ← List.map_append, ← List.flatten_append, hsplit]

/-- Every word is counted in two windows, as they slide by half of their length: up to the
`n`-th, what came in the last five seconds was counted once, and what came before twice. -/
theorem sum_shown_streaming (locale : WordCountModified.Locale)
    (seconds : List (List JavaString)) (w : JavaString) (n : Nat)
    (hfits : ∀ k < n,
      (words ((window seconds (k + 1)).map locale.toLowerCase)).count w < 2 ^ 31) :
    ((List.range n).map fun k => shown (streaming locale seconds (k + 1)) w).sum =
      (occurrences locale seconds w (5 * n) : Int) +
        occurrences locale seconds w (5 * (n - 1)) := by
  have hstart : occurrences locale seconds w 0 = 0 := rfl
  induction n with
  | zero => simp [hstart]
  | succ n ih =>
    have hcount := count_window locale seconds w (n + 1)
    have hshown : shown (streaming locale seconds (n + 1)) w =
        (words ((window seconds (n + 1)).map locale.toLowerCase)).count w :=
      shown_countWords (hfits n (Nat.lt_succ_self n))
    rw [show 5 * (n + 1) - 10 = 5 * (n - 1) by omega] at hcount
    rw [List.range_succ, List.map_append, List.sum_append,
      ih fun k hk => hfits k (Nat.lt_succ_of_lt hk), List.map_singleton, List.sum_singleton, hshown,
      Nat.add_sub_cancel]
    omega

theorem sum_shown_streaming_two :
    ((List.range 2).map fun k =>
      shown (streaming ⟨id, fun _ => Iff.rfl⟩ [[[97]], [], [], [], [], [[97]]] (k + 1)) [97]).sum =
      3 :=
  (sum_shown_streaming ⟨id, fun _ => Iff.rfl⟩ [[[97]], [], [], [], [], [[97]]] [97] 2
    (by decide)).trans (by decide)

/-! ## The stream with a state -/

/-- The state after some words. -/
def stateOf (processed : List JavaString) (word : JavaString) : Option Int :=
  if word ∈ processed then some (wrap 32 (processed.count word)) else none

theorem mapFunction_stateOf (processed : List JavaString) (word : JavaString) :
    mapFunction (stateOf processed) word =
      (stateOf (processed ++ [word]), (word, wrap 32 (processed.count word + 1))) := by
  have hsum : wrap 32 (1 + (stateOf processed word).getD 0) =
      wrap 32 (processed.count word + 1) := by
    unfold stateOf
    split
    · rw [Option.getD_some, Int.add_comm, wrap_wrap_add]
    · next h => simp [List.count_eq_zero.mpr h]
  unfold mapFunction
  rw [hsum]
  refine Prod.ext ?_ rfl
  funext w
  rcases eq_or_ne w word with rfl | hne
  · simp [stateOf]
  · simp [stateOf, hne, hne.symm]

/-- The rows for `w` of words that are processed after others. -/
def rowsFor (w : JavaString) (before n : Nat) : List (JavaString × Int) :=
  (List.range n).map fun i : Nat => (w, wrap 32 (before + i + 1 : Nat))

theorem rowsFor_add (w : JavaString) (before m n : Nat) :
    rowsFor w before (m + n) = rowsFor w before m ++ rowsFor w (before + m) n := by
  unfold rowsFor
  rw [List.range_add, List.map_append, List.map_map]
  simp only [Function.comp_def, Nat.add_assoc]

theorem mapWithState_stateOf (processed batch : List JavaString) (w : JavaString) :
    (mapWithState (stateOf processed) batch).1 = stateOf (processed ++ batch) ∧
      (mapWithState (stateOf processed) batch).2.filter (fun row => row.1 = w) =
        rowsFor w (processed.count w) (batch.count w) := by
  induction batch generalizing processed with
  | nil => simp [mapWithState, rowsFor]
  | cons word batch ih =>
    obtain ⟨hstate, hrows⟩ := ih (processed ++ [word])
    unfold mapWithState
    simp only [mapFunction_stateOf]
    refine ⟨by rw [hstate, List.append_assoc, List.singleton_append], ?_⟩
    rw [List.filter_cons, hrows, List.count_append, List.count_cons]
    by_cases hword : word = w
    · subst hword
      have hfirst : rowsFor word (processed.count word) 1 =
          [(word, wrap 32 (processed.count word + 1))] := rfl
      simp [Nat.add_comm _ 1, rowsFor_add, hfirst]
    · simp [hword]

theorem withState_stateOf (processed : List JavaString) (batches : List (List JavaString))
    (w : JavaString) :
    (withState (stateOf processed) batches).flatten.filter (fun row => row.1 = w) =
      rowsFor w (processed.count w) (batches.flatten.count w) := by
  induction batches generalizing processed with
  | nil => simp [withState, rowsFor]
  | cons batch batches ih =>
    obtain ⟨hstate, hrows⟩ := mapWithState_stateOf processed batch w
    rw [withState, List.flatten_cons, List.filter_append, hrows, hstate, ih, List.flatten_cons,
      List.count_append, List.count_append, rowsFor_add]

/-- However the lines are cut into batches, and in whatever order the words of a batch are
processed, the rows for a word count from 1 up to the number of times it came, each once. -/
theorem withState_rows (locale : WordCountModified.Locale)
    (batches processed : List (List JavaString))
    (hprocessed : List.Forall₂ List.Perm processed
      (batches.map fun lines => words (lines.map locale.toLowerCase))) (w : JavaString) :
    (withState (fun _ => none) processed).flatten.filter (fun row => row.1 = w) =
      (List.range ((words (batches.flatten.map locale.toLowerCase)).count w)).map
        fun i : Nat => (w, wrap 32 (i + 1 : Nat)) := by
  have hcount : processed.flatten.count w =
      (words (batches.flatten.map locale.toLowerCase)).count w := by
    have hwords : (batches.map fun lines => words (lines.map locale.toLowerCase)).flatten =
        words (batches.flatten.map locale.toLowerCase) := by
      rw [List.map_flatten, words_flatten, List.map_map]
      rfl
    rw [(List.Perm.flatten_congr hprocessed).count_eq, hwords]
  have hempty : stateOf [] = fun _ => none := by
    funext word
    simp [stateOf]
  have hrows := withState_stateOf [] processed w
  rw [hcount, hempty, List.count_nil] at hrows
  simpa only [rowsFor, Nat.zero_add] using hrows

theorem withState_rows_two :
    (withState (fun _ => none) [[[98], [97]], [[97]]]).flatten.filter (fun row => row.1 = [97]) =
      [([97], 1), ([97], 2)] :=
  (withState_rows ⟨id, fun _ => Iff.rfl⟩ [[[97, 32, 98]], [[97]]] [[[98], [97]], [[97]]]
    (.cons (by decide) (.cons (by decide) .nil)) [97]).trans (by decide)

end Nsds.WordCounts
