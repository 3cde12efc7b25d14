import Mathlib.Algebra.BigOperators.Group.Finset.Piecewise
import Mathlib.Algebra.Order.Ring.Nat
import Mathlib.Data.List.Dedup

/-!
# Pairs of keys and values

The values of every key are reduced to one. The order of the keys is that of their last
pairs here, and nothing is to depend on it.
-/

namespace Pairs

variable {κ β : Type} [DecidableEq κ]

/-- The values under a key, in their order. -/
def valuesOf (pairs : List (κ × β)) (key : κ) : List β :=
  (pairs.filter fun pair => pair.1 = key).map Prod.snd

def reduce (f : β → β → β) : List β → Option β
  | [] => none
  | first :: rest => some (rest.foldl f first)

/-- One value for each key, all its values put together. -/
def reduceByKey (f : β → β → β) (pairs : List (κ × β)) : List (κ × β) :=
  (pairs.map Prod.fst).dedup.filterMap fun key =>
    (reduce f (valuesOf pairs key)).map fun value => (key, value)

theorem valuesOf_append (pairs pairs' : List (κ × β)) (key : κ) :
    valuesOf (pairs ++ pairs') key = valuesOf pairs key ++ valuesOf pairs' key := by
  simp [valuesOf]

theorem mem_reduceByKey {f : β → β → β} {pairs : List (κ × β)} {key : κ} {value : β} :
    (key, value) ∈ reduceByKey f pairs ↔ reduce f (valuesOf pairs key) = some value := by
  unfold reduceByKey
  simp only [List.mem_filterMap, List.mem_dedup, Option.map_eq_some_iff, Prod.mk.injEq]
  constructor
  · rintro ⟨_, -, _, hreduce, rfl, rfl⟩
    exact hreduce
  · intro hreduce
    refine ⟨key, ?_, value, hreduce, rfl, rfl⟩
    by_contra hkey
    have hnil : valuesOf pairs key = [] := by
      unfold valuesOf
      simp only [List.mem_map, not_exists, not_and] at hkey
      simpa using hkey
    rw [hnil] at hreduce
    simp [reduce] at hreduce

theorem nodup_reduceByKey (f : β → β → β) (pairs : List (κ × β)) :
    ((reduceByKey f pairs).map Prod.fst).Nodup := by
  unfold reduceByKey
  rw [List.map_filterMap]
  refine (List.nodup_dedup _).filterMap fun key key' k hk hk' => ?_
  simp only [Option.mem_def, Option.map_map, Option.map_eq_some_iff, Function.comp_apply] at hk hk'
  obtain ⟨_, -, rfl⟩ := hk
  obtain ⟨_, -, rfl⟩ := hk'
  rfl

theorem sum_by_key {α M : Type} [AddCommMonoid M] {key : α → κ} (f : α → M) {keys : List κ}
    (hnodup : keys.Nodup) {l : List α} (hkeys : ∀ x ∈ l, key x ∈ keys) :
    (keys.map fun k => ((l.filter fun x => key x = k).map f).sum).sum = (l.map f).sum := by
  induction l with
  | nil => simp
  | cons x l ih =>
    rw [List.forall_mem_cons] at hkeys
    have hsplit (k : κ) : (((x :: l).filter fun y => key y = k).map f).sum =
        (if key x = k then f x else 0) + ((l.filter fun y => key y = k).map f).sum := by
      by_cases h : key x = k <;> simp [h]
    simp only [hsplit]
    rw [List.sum_map_add, ih hkeys.2, ← List.sum_toFinset _ hnodup, Finset.sum_ite_eq,
      if_pos (List.mem_toFinset.mpr hkeys.1), List.map_cons, List.sum_cons]

theorem length_by_key {α : Type} {key : α → κ} {keys : List κ} (hnodup : keys.Nodup)
    {l : List α} (hkeys : ∀ x ∈ l, key x ∈ keys) :
    (keys.map fun k => (l.filter fun x => key x = k).length).sum = l.length := by
  have hlength (l : List α) : (l.map fun _ => 1).sum = l.length := by
    induction l with
    | nil => rfl
    | cons x l ih => rw [List.map_cons, List.sum_cons, ih, List.length_cons, Nat.add_comm]
  have hsum := sum_by_key (M := Nat) (fun _ => 1) hnodup hkeys
  simpa only [hlength] using hsum

theorem flatMap_filter_perm {α : Type} {key : α → κ} {keys : List κ} (hnodup : keys.Nodup)
    {l : List α} (hl : l.Nodup) (hkeys : ∀ x ∈ l, key x ∈ keys) :
    (keys.flatMap fun k => l.filter fun x => key x = k).Perm l := by
  have hlisted : (keys.flatMap fun k => l.filter fun x => key x = k).Nodup := by
    rw [List.nodup_flatMap]
    refine ⟨fun k _ => hl.filter _, hnodup.imp fun {k k'} hne x hx hx' => hne ?_⟩
    rw [← of_decide_eq_true (List.mem_filter.mp hx).2]
    exact of_decide_eq_true (List.mem_filter.mp hx').2
  rw [List.perm_ext_iff_of_nodup hlisted hl]
  intro x
  simp only [List.mem_flatMap, List.mem_filter, decide_eq_true_eq]
  constructor
  · rintro ⟨_, -, hx, -⟩
    exact hx
  · exact fun hx => ⟨key x, hkeys x hx, hx, rfl⟩

end Pairs
