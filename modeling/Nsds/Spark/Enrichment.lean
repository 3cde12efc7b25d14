import Nsds.Lib.MicroBatch
import Nsds.Lib.Windows

/-!
# `EventEnrichment.java` of the tutorial and of the lab, `WindowedCount.java`

Streams that are joined with a table, and counted by class, by window, or by both. All columns
of the table may be null, and times are in microseconds. The result of `withWatermark` is not
used.
-/

namespace Nsds.Enrichment

open MicroBatch Pairs Sql Windows

/-- A row of `product_classification.csv`. -/
structure Classified (S : Type) where
  product : Option S
  classification : Option S
deriving DecidableEq, Repr

/-- A row of the rate source. -/
structure Record where
  timestamp : Int
  value : Int
deriving DecidableEq, Repr

variable {S : Type} [DecidableEq S]

/-! ## The tutorial -/

def tutorialRows (productsClassification : List (Classified S)) (inStream : List S) :
    List (Option S × Unit) :=
  (innerJoin (fun product row => equalTo (some product) row.product) inStream
    productsClassification).map fun row => (row.2.classification, ())

/-- What every trigger prints, with a class for each product. -/
def tutorial (productsClassification : List (Classified S)) (batches : List (List S)) :
    List (List (Option S × Nat)) :=
  run (count Unit) (fun _ => none) (batches.map (tutorialRows productsClassification))

/-! ## The lab -/

/-- `30 seconds` and `5 seconds`. -/
def labWindow : Nat := 30000000

def labSlide : Nat := 5000000

/-- A number is compared with a text as the number that the text is cast to, or null. -/
def labJoin (castLong : S → Option Int) (productsClassification : List (Classified S))
    (inStream : List Record) : List (Record × Classified S) :=
  innerJoin (fun record row => equalTo (some record.value) (row.product.bind castLong)) inStream
    productsClassification

def labRows (castLong : S → Option Int) (productsClassification : List (Classified S))
    (inStream : List Record) : List ((Int × Option S) × Unit) :=
  windowed labWindow labSlide (fun row => row.1.timestamp) (fun row => row.2.classification)
    (fun _ => ()) (labJoin castLong productsClassification inStream)

def lab (castLong : S → Option Int) (productsClassification : List (Classified S))
    (batches : List (List Record)) : List (List ((Int × Option S) × Nat)) :=
  run (count Unit) (fun _ => none) (batches.map (labRows castLong productsClassification))

/-! ## `WindowedCount.java` -/

/-- `30 seconds` and `10 seconds`. -/
def countWindow : Nat := 30000000

def countSlide : Nat := 10000000

def windowedRows (inputRecords : List Record) : List ((Int × Int) × Unit) :=
  windowed countWindow countSlide Record.timestamp Record.value (fun _ => ()) inputRecords

def windowedCount (batches : List (List Record)) : List (List ((Int × Int) × Nat)) :=
  run (count Unit) (fun _ => none) (batches.map windowedRows)

/-! ## What the tutorial shows -/

variable {productsClassification : List (Classified S)}

theorem tutorialRows_flatten (batches : List (List S)) :
    (batches.map (tutorialRows productsClassification)).flatten =
      tutorialRows productsClassification batches.flatten := by
  unfold tutorialRows
  rw [innerJoin_flatten, List.map_flatten, List.map_map]
  rfl

theorem length_valuesOf_product (hunique : (productsClassification.map Classified.product).Nodup)
    (product : S) (classification : Option S) :
    (valuesOf (tutorialRows productsClassification [product]) classification).length =
      if ⟨some product, classification⟩ ∈ productsClassification then 1 else 0 := by
  have hfilter : (Sql.filter (fun row => equalTo (some product) row.product)
      productsClassification).filter (fun row => row.classification = classification) =
      productsClassification.filter fun row => row = ⟨some product, classification⟩ := by
    unfold Sql.filter
    rw [List.filter_filter]
    apply List.filter_congr
    rintro ⟨product', classification'⟩ _
    rw [← Bool.decide_and, decide_eq_decide, equalTo_iff]
    simp only [Option.some.injEq, exists_eq_left', Classified.mk.injEq, and_comm]
  rw [List.filter_eq, hunique.of_map.count] at hfilter
  have hvalues : valuesOf (tutorialRows productsClassification [product]) classification =
      ((Sql.filter (fun row => equalTo (some product) row.product)
        productsClassification).filter fun row => row.classification = classification).map
          fun _ => () := by
    simp [valuesOf, tutorialRows, innerJoin, List.filter_map, Function.comp_def]
  rw [hvalues, hfilter, List.length_map, List.length_replicate]

theorem length_valuesOf (hunique : (productsClassification.map Classified.product).Nodup)
    (inStream : List S) (classification : Option S) :
    (valuesOf (tutorialRows productsClassification inStream) classification).length =
      inStream.countP fun product =>
        ⟨some product, classification⟩ ∈ productsClassification := by
  induction inStream with
  | nil => rfl
  | cons product inStream ih =>
    have hcons : tutorialRows productsClassification (product :: inStream) =
        tutorialRows productsClassification [product] ++
          tutorialRows productsClassification inStream := by
      unfold tutorialRows
      rw [← List.map_append, ← innerJoin_append, List.singleton_append]
    rw [hcons, valuesOf_append, List.length_append, ih, length_valuesOf_product hunique,
      List.countP_cons, Nat.add_comm]
    simp only [decide_eq_true_eq]

/-- However the stream is cut into batches, the most recent row of a class shows how many of its
products came so far. -/
theorem tutorial_latest (hunique : (productsClassification.map Classified.product).Nodup)
    (batches : List (List S)) (classification : Option S) :
    (latest (tutorial productsClassification batches) classification).getD 0 =
      batches.flatten.countP fun product =>
        ⟨some product, classification⟩ ∈ productsClassification := by
  unfold tutorial
  rw [getD_latest_count, tutorialRows_flatten, length_valuesOf hunique]

theorem tutorial_latest_two :
    (latest (tutorial [⟨some 1, some 7⟩, ⟨some 2, some 8⟩] [[1, 2], [1, 3]]) (some 7)).getD 0 = 2 :=
  (tutorial_latest (by decide) [[1, 2], [1, 3]] (some 7)).trans (by decide)

/-! ## What the lab shows -/

omit [DecidableEq S] in
theorem labRows_flatten (castLong : S → Option Int) (batches : List (List Record)) :
    (batches.map (labRows castLong productsClassification)).flatten =
      labRows castLong productsClassification batches.flatten := by
  unfold labRows labJoin
  rw [innerJoin_flatten, windowed_flatten, List.map_map]
  rfl

/-- However the stream is cut into batches, the most recent row of a window and a class shows how
many records of that class came so far in those 30 seconds. The counts of all windows together
are six times the records: there is a window every five seconds. -/
theorem lab_latest (castLong : S → Option Int) (productsClassification : List (Classified S))
    (batches : List (List Record)) :
    (∀ start classification,
      (latest (lab castLong productsClassification batches) (start, classification)).getD 0 =
        if (labSlide : Int) ∣ start then
          (labJoin castLong productsClassification batches.flatten).countP fun row =>
            start ≤ row.1.timestamp ∧ row.1.timestamp < start + labWindow ∧
              row.2.classification = classification
        else 0) ∧
    (((labRows castLong productsClassification batches.flatten).map Prod.fst).dedup.map fun key =>
        (latest (lab castLong productsClassification batches) key).getD 0).sum =
      6 * (labJoin castLong productsClassification batches.flatten).length := by
  unfold lab
  constructor
  · intro start classification
    rw [getD_latest_count, labRows_flatten, labRows, valuesOf_windowed (by decide)]
    split
    · rw [List.length_map, List.countP_eq_length_filter]
    · rfl
  · rw [← labRows_flatten, sum_latest_count, labRows_flatten]
    exact length_windowed (by decide : 0 < labSlide) 6 _ _ _

/-! ## What `WindowedCount.java` shows -/

theorem windowedCount_latest (batches : List (List Record)) :
    (∀ start value,
      (latest (windowedCount batches) (start, value)).getD 0 =
        if (countSlide : Int) ∣ start then
          batches.flatten.countP fun record =>
            start ≤ record.timestamp ∧ record.timestamp < start + countWindow ∧
              record.value = value
        else 0) ∧
    (((windowedRows batches.flatten).map Prod.fst).dedup.map fun key =>
        (latest (windowedCount batches) key).getD 0).sum = 3 * batches.flatten.length := by
  have hflatten : (batches.map windowedRows).flatten = windowedRows batches.flatten :=
    (windowed_flatten ..).symm
  unfold windowedCount
  constructor
  · intro start value
    rw [getD_latest_count, hflatten, windowedRows, valuesOf_windowed (by decide)]
    split
    · rw [List.length_map, List.countP_eq_length_filter]
    · rfl
  · rw [← hflatten, sum_latest_count, hflatten]
    exact length_windowed (by decide : 0 < countSlide) 3 _ _ _

end Nsds.Enrichment
