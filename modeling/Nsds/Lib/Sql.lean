import Mathlib.Data.List.Dedup
import Nsds.Lib.Extrema
import Nsds.Lib.MachineInt
import Nsds.Lib.Pairs

/-!
# Tables with nulls

The rows of a table are a list, whose order only a sort is about. A null is `none`. A
condition is true, false or null, and a filter keeps the rows for which it is true.
-/

namespace Sql

open Extrema MachineInt Pairs

variable {α β κ : Type}

/-! ## Columns -/

def isNull (a : Option κ) : Option Bool := some a.isNone

/-- A comparison with null is null. -/
def equalTo [DecidableEq κ] : Option κ → Option κ → Option Bool
  | some a, some b => some (decide (a = b))
  | _, _ => none

def gt : Option Int → Option Int → Option Bool
  | some a, some b => some (decide (a > b))
  | _, _ => none

/-- Null is what is not known. -/
def or : Option Bool → Option Bool → Option Bool
  | some true, _ => some true
  | _, some true => some true
  | some false, some false => some false
  | _, _ => none

def and : Option Bool → Option Bool → Option Bool
  | some false, _ => some false
  | _, some false => some false
  | some true, some true => some true
  | _, _ => none

/-- The difference of two numbers of 64 bits. -/
def minus : Option Int → Option Int → Option Int
  | some a, some b => some (wrap 64 (a - b))
  | _, _ => none

/-- The sum of what is not null, as a number of 64 bits, and null if there is nothing. -/
def sum (column : List (Option Int)) : Option Int :=
  match column.filterMap id with
  | [] => none
  | amounts => some (amounts.foldl (fun a b => wrap 64 (a + b)) 0)

/-- The greatest number, and null if there is none. -/
def maxOf (column : List (Option Int)) : Option Int :=
  reduce (fun a b => max b a) (column.filterMap id)

/-! ## Tables -/

/-- A row whose condition is null is left out. -/
def filter (condition : α → Option Bool) (rows : List α) : List α :=
  rows.filter fun row => condition row = some true

/-- A row of `groupBySum`. -/
structure GroupSum (κ : Type) where
  key : Option κ
  sum : Option Int
deriving DecidableEq, Repr

/-- `groupBy(key).sum(amount)`, where a null is a key like others. -/
def groupBySum [DecidableEq κ] (key : α → Option κ) (amount : α → Option Int) (rows : List α) :
    List (GroupSum κ) :=
  (rows.map key).dedup.map fun k =>
    { key := k, sum := sum ((rows.filter fun row => key row = k).map amount) }

/-- The pairs of rows for which the condition is true. -/
def innerJoin (on : α → β → Option Bool) (left : List α) (right : List β) : List (α × β) :=
  left.flatMap fun a => (filter (on a) right).map fun b => (a, b)

/-- Every row on the left, with each of its matches or with none. -/
def leftOuterJoin (on : α → β → Option Bool) (left : List α) (right : List β) :
    List (α × Option β) :=
  left.flatMap fun a =>
    match filter (on a) right with
    | [] => [(a, none)]
    | matching => matching.map fun b => (a, some b)

/-- The left outer join, and the rows on the right without a match. -/
def fullOuterJoin (on : α → β → Option Bool) (left : List α) (right : List β) :
    List (Option α × Option β) :=
  (leftOuterJoin on left right).map (fun row => (some row.1, row.2)) ++
    (right.filter fun b => ∀ a ∈ left, on a b ≠ some true).map fun b => (none, some b)

/-- The order of `desc`: nulls come last. -/
def descending : Option Int → Option Int → Bool
  | some a, some b => decide (b ≤ a)
  | some _, none => true
  | none, some _ => false
  | none, none => true

def orderByDesc (column : α → Option Int) (rows : List α) : List α :=
  rows.mergeSort fun a b => descending (column a) (column b)

/-! ## Conditions -/

theorem equalTo_eq_true_iff [DecidableEq κ] {a : Option κ} {b : κ} :
    equalTo a (some b) = some true ↔ a = some b := by
  rcases a with _ | a <;> simp [equalTo]

theorem equalTo_iff [DecidableEq κ] {a b : Option κ} :
    equalTo a b = some true ↔ ∃ k, a = some k ∧ b = some k := by
  rcases a with _ | a <;> rcases b with _ | b <;> simp [equalTo, eq_comm]

theorem or_eq_true_iff {a b : Option Bool} :
    or a b = some true ↔ a = some true ∨ b = some true := by
  rcases a with _ | _ | _ <;> rcases b with _ | _ | _ <;> simp [or]

theorem and_eq_true_iff {a b : Option Bool} :
    and a b = some true ↔ a = some true ∧ b = some true := by
  rcases a with _ | _ | _ <;> rcases b with _ | _ | _ <;> simp [and]

theorem gt_eq_true_iff {a b : Option Int} :
    gt a b = some true ↔ ∃ m n, a = some m ∧ b = some n ∧ n < m := by
  rcases a with _ | m <;> rcases b with _ | n <;> simp [gt]

/-! ## Sums and maxima -/

theorem sum_map_some {l : List Int} (hne : l ≠ []) :
    sum (l.map some) = some (wrap 64 l.sum) := by
  unfold sum
  rw [List.filterMap_map, Function.id_comp, List.filterMap_some]
  split
  · exact absurd rfl hne
  · rw [foldl_wrap _ _ _ rfl, Int.zero_add]

theorem sum_append_singleton (column : List (Option Int)) (a : Option Int) :
    sum (column ++ [a]) = match a with
      | none => sum column
      | some n => some (wrap 64 ((sum column).getD 0 + n)) := by
  unfold sum
  rw [List.filterMap_append]
  rcases a with _ | n
  · rw [show List.filterMap id [(none : Option Int)] = [] from rfl, List.append_nil]
  · rw [show List.filterMap id [some n] = [n] from rfl]
    rcases column.filterMap id with _ | ⟨first, rest⟩
    · rfl
    · simp [List.foldl_append]

theorem sum_filterMap (f : α → Option Int) (rows : List α) :
    (rows.filterMap f).sum = (rows.map fun row => (f row).getD 0).sum := by
  induction rows with
  | nil => rfl
  | cons row rows ih =>
    rcases h : f row with _ | n <;> simp [h, ih]

theorem getD_sum (column : List (Option Int)) :
    (sum column).getD 0 = wrap 64 (column.map fun a => a.getD 0).sum := by
  have hsum : (column.filterMap id).sum = (column.map fun a => a.getD 0).sum :=
    sum_filterMap id column
  rw [← hsum]
  unfold sum
  split
  · next h => rw [h]; rfl
  · rw [Option.getD_some, foldl_wrap _ _ _ rfl, Int.zero_add]

theorem sum_eq_none_iff {column : List (Option Int)} :
    sum column = none ↔ column.filterMap id = [] := by
  unfold sum
  rcases column.filterMap id with _ | ⟨first, rest⟩ <;> simp

theorem maxOf_eq_none_iff {column : List (Option Int)} :
    maxOf column = none ↔ column.filterMap id = [] := by
  unfold maxOf
  rcases column.filterMap id with _ | ⟨first, rest⟩ <;> simp [reduce]

theorem maxOf_eq_some_iff {column : List (Option Int)} {m : Int} :
    maxOf column = some m ↔ some m ∈ column ∧ ∀ n, some n ∈ column → n ≤ m := by
  have hmem (n : Int) : some n ∈ column ↔ n ∈ column.filterMap id := by simp
  simp only [hmem]
  unfold maxOf
  rcases column.filterMap id with _ | ⟨first, rest⟩
  · simp [reduce]
  · have hgreatest := isGreatest_foldl_max first rest
    rw [reduce, Option.some.injEq]
    simp only [List.mem_cons]
    constructor
    · rintro rfl
      exact hgreatest
    · intro hm
      exact hgreatest.unique hm

theorem maxOf_perm {column column' : List (Option Int)} (h : column.Perm column') :
    maxOf column = maxOf column' := by
  apply Option.ext
  intro m
  rw [maxOf_eq_some_iff, maxOf_eq_some_iff, h.mem_iff]
  simp only [h.mem_iff]

/-! ## Groups -/

section

variable [DecidableEq κ] {key : α → Option κ} {amount : α → Option Int} {rows : List α}

theorem mem_groupBySum {group : GroupSum κ} :
    group ∈ groupBySum key amount rows ↔ group.key ∈ rows.map key ∧
      group.sum = sum ((rows.filter fun row => key row = group.key).map amount) := by
  unfold groupBySum
  simp only [List.mem_map, List.mem_dedup]
  constructor
  · rintro ⟨k, hk, rfl⟩
    exact ⟨hk, rfl⟩
  · rintro ⟨hk, hsum⟩
    exact ⟨group.key, hk, by rw [← hsum]⟩

theorem map_key_groupBySum :
    (groupBySum key amount rows).map GroupSum.key = (rows.map key).dedup := by
  unfold groupBySum
  rw [List.map_map]
  exact List.map_id _

theorem wrap_sum_groupBySum :
    wrap 64 ((groupBySum key amount rows).filterMap GroupSum.sum).sum =
      wrap 64 (rows.filterMap amount).sum := by
  have hkeys : ∀ row ∈ rows, key row ∈ (rows.map key).dedup :=
    fun row hrow => List.mem_dedup.mpr (List.mem_map_of_mem hrow)
  have hby := sum_by_key (fun row => (amount row).getD 0) (List.nodup_dedup _) hkeys
  rw [sum_filterMap, sum_filterMap, ← hby]
  unfold groupBySum
  simp only [List.map_map, Function.comp_def, getD_sum]
  exact wrap_sum_wrap ..

theorem nodup_groupBySum : (groupBySum key amount rows).Nodup := by
  apply List.Nodup.of_map GroupSum.key
  rw [map_key_groupBySum]
  exact List.nodup_dedup _

end

/-! ## Joins -/

theorem innerJoin_append (on : α → β → Option Bool) (left left' : List α) (right : List β) :
    innerJoin on (left ++ left') right = innerJoin on left right ++ innerJoin on left' right :=
  List.flatMap_append

theorem innerJoin_flatten (on : α → β → Option Bool) (lefts : List (List α)) (right : List β) :
    innerJoin on lefts.flatten right = (lefts.map fun left => innerJoin on left right).flatten := by
  induction lefts with
  | nil => rfl
  | cons left lefts ih => rw [List.flatten_cons, innerJoin_append, ih, List.map_cons,
      List.flatten_cons]

theorem mem_innerJoin {on : α → β → Option Bool} {left : List α} {right : List β} {a : α} {b : β} :
    (a, b) ∈ innerJoin on left right ↔ a ∈ left ∧ b ∈ right ∧ on a b = some true := by
  unfold innerJoin filter
  simp

theorem filter_innerJoin (on : α → β → Option Bool) (left : List α) (right : List β)
    (p : α → Bool) : (innerJoin on left right).filter (fun row => p row.1) =
      innerJoin on (left.filter p) right := by
  induction left with
  | nil => rfl
  | cons a left ih =>
    unfold innerJoin at ih ⊢
    rw [List.flatMap_cons, List.filter_append, ih, List.filter_map, List.filter_cons]
    cases hp : p a with
    | true =>
      have hall : (fun row => p row.1) ∘ (fun b => (a, b)) = fun _ : β => true := funext fun _ => hp
      rw [hall, List.filter_true, if_pos rfl, List.flatMap_cons]
    | false =>
      have hnone : (fun row => p row.1) ∘ (fun b => (a, b)) = fun _ : β => false :=
        funext fun _ => hp
      rw [hnone, List.filter_false, List.map_nil, List.nil_append, if_neg Bool.false_ne_true]

theorem sum_map_innerJoin (on : α → β → Option Bool) (left : List α) (right : List β)
    (f : β → Int) : ((innerJoin on left right).map fun row => f row.2).sum =
      (right.map fun b => ((filter (fun a => on a b) left).length : Int) * f b).sum := by
  induction left with
  | nil => simp [innerJoin, filter]
  | cons a left ih =>
    have hhead : ((filter (on a) right).map f).sum =
        (right.map fun b => if on a b = some true then f b else 0).sum := by
      simp [filter, List.sum_map_ite]
    have hlength (b : β) : ((filter (fun a => on a b) (a :: left)).length : Int) * f b =
        (if on a b = some true then f b else 0) +
          ((filter (fun a => on a b) left).length : Int) * f b := by
      unfold filter
      by_cases h : on a b = some true
      · simp [h, Int.add_mul, Int.add_comm]
      · simp [h]
    unfold innerJoin at ih ⊢
    simp only [hlength]
    rw [List.sum_map_add, ← ih, ← hhead, List.flatMap_cons, List.map_append, List.sum_append,
      List.map_map]
    rfl

theorem nodup_innerJoin (on : α → β → Option Bool) {left : List α} {right : List β}
    (hleft : left.Nodup) (hright : right.Nodup) : (innerJoin on left right).Nodup := by
  unfold innerJoin
  rw [List.nodup_flatMap]
  constructor
  · intro a _
    exact (hright.filter _).map fun b b' h => (Prod.mk.inj h).2
  · refine hleft.imp fun {a a'} hne => ?_
    intro row h h'
    obtain ⟨_, -, rfl⟩ := List.mem_map.mp h
    obtain ⟨_, -, heq⟩ := List.mem_map.mp h'
    exact hne (Prod.mk.inj heq).1.symm

theorem filter_eq_find {condition : α → Option Bool} {rows : List α}
    (hunique : rows.Pairwise fun a b => ¬ (condition a = some true ∧ condition b = some true)) :
    filter condition rows = (rows.find? fun row => condition row = some true).toList := by
  unfold filter
  induction rows with
  | nil => rfl
  | cons row rows ih =>
    rw [List.pairwise_cons] at hunique
    by_cases hrow : condition row = some true
    · have hrest : rows.filter (fun row => condition row = some true) = [] := by
        simp only [List.filter_eq_nil_iff, decide_eq_true_eq]
        exact fun other hother hcondition => hunique.1 other hother ⟨hrow, hcondition⟩
      simp [hrow, hrest]
    · simp [hrow, ih hunique.2]

theorem leftOuterJoin_eq_map {on : α → β → Option Bool} {left : List α} {right : List β}
    (hunique : ∀ a ∈ left, right.Pairwise fun b b' =>
      ¬ (on a b = some true ∧ on a b' = some true)) :
    leftOuterJoin on left right =
      left.map fun a => (a, right.find? fun b => on a b = some true) := by
  induction left with
  | nil => rfl
  | cons a left ih =>
    rw [List.forall_mem_cons] at hunique
    unfold leftOuterJoin at ih ⊢
    rw [List.flatMap_cons, ih hunique.2, List.map_cons, filter_eq_find hunique.1]
    rcases right.find? _ <;> rfl

/-! ## Sorting -/

theorem orderByDesc_perm (column : α → Option Int) (rows : List α) :
    (orderByDesc column rows).Perm rows := List.mergeSort_perm _ _

theorem pairwise_orderByDesc (column : α → Option Int) (rows : List α) :
    (orderByDesc column rows).Pairwise fun a b => descending (column a) (column b) := by
  unfold orderByDesc
  apply List.pairwise_mergeSort
  · intro a b c
    generalize column a = x, column b = y, column c = z
    rcases x with _ | x <;> rcases y with _ | y <;> rcases z with _ | z <;> simp [descending]
    omega
  · intro a b
    generalize column a = x, column b = y
    rcases x with _ | x <;> rcases y with _ | y <;> simp [descending]
    omega

end Sql
