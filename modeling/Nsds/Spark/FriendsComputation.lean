import Mathlib.Data.List.Dedup
import Mathlib.Data.List.Perm.Subperm
import Mathlib.Data.List.ProdSigma
import Nsds.Lib.Doubling

/-!
# `spark/NSDS_spark_lab`, `friends/FriendsComputation.java`

The rows of a `Dataset` are a list, whose order nothing depends on. Both columns are
declared as not nullable.
-/

namespace Nsds.FriendsComputation

open Doubling Relation

structure Row (α : Type) where
  person : α
  friend : α
deriving DecidableEq, Repr

variable {α : Type}

/-- A row of the input. -/
def Friend (rows : List (Row α)) (a b : α) : Prop := ⟨a, b⟩ ∈ rows

instance [DecidableEq α] (rows : List (Row α)) (a b : α) : Decidable (Friend rows a b) :=
  inferInstanceAs (Decidable (_ ∈ rows))

theorem friend_mono {rows rows' : List (Row α)} (h : rows ⊆ rows') :
    Friend rows ≤ Friend rows' := fun _ _ hab => h hab

variable [DecidableEq α]

/-- `i1.join(i2, i1.friend = i2.person)`, with `i1.person` and `i2.friend` selected. -/
def join (i1 i2 : List (Row α)) : List (Row α) :=
  i1.flatMap fun row1 =>
    (i2.filter fun row2 => row1.friend = row2.person).map fun row2 =>
      { person := row1.person, friend := row2.friend }

/-- `mergedFriends` after the body of the loop. -/
def body (lastIteration : List (Row α)) : List (Row α) :=
  let newFriends := join lastIteration lastIteration
  (lastIteration ++ newFriends).dedup

/-- The do-while loop, with so many iterations at most. -/
def loop : Nat → List (Row α) → Option (List (Row α))
  | 0, _ => none
  | fuel + 1, lastIteration =>
    let mergedFriends := body lastIteration
    if lastIteration.length ≠ mergedFriends.length then loop fuel mergedFriends
    else some mergedFriends

/-- `mergedFriends` after `n` iterations. -/
def iteration (input : List (Row α)) (n : Nat) : List (Row α) := body^[n] input


/-! ## One iteration -/

theorem mem_join {i1 i2 : List (Row α)} {a b : α} :
    ⟨a, b⟩ ∈ join i1 i2 ↔ Comp (Friend i1) (Friend i2) a b := by
  unfold join Comp Friend
  simp only [List.mem_flatMap, List.mem_map, List.mem_filter, decide_eq_true_eq, Row.mk.injEq]
  constructor
  · rintro ⟨⟨_, c⟩, h1, ⟨c', _⟩, ⟨h2, rfl⟩, rfl, rfl⟩
    exact ⟨c, h1, h2⟩
  · rintro ⟨c, h1, h2⟩
    exact ⟨⟨a, c⟩, h1, ⟨c, b⟩, ⟨h2, rfl⟩, rfl, rfl⟩

theorem friend_body (rows : List (Row α)) : Friend (body rows) = double (Friend rows) := by
  funext a b
  unfold Friend body
  simp only [List.mem_dedup, List.mem_append, mem_join]
  rfl

theorem nodup_body (rows : List (Row α)) : (body rows).Nodup := List.nodup_dedup _

theorem subset_body (rows : List (Row α)) : rows ⊆ body rows := by
  rintro ⟨a, b⟩ h
  have hbody : Friend (body rows) a b := by
    rw [friend_body]
    exact le_double a b h
  exact hbody

/-! ## All iterations -/

theorem iteration_succ (input : List (Row α)) (n : Nat) :
    iteration input (n + 1) = body (iteration input n) :=
  Function.iterate_succ_apply' ..

theorem subset_iteration (input : List (Row α)) (n : Nat) : input ⊆ iteration input n := by
  induction n with
  | zero => exact List.Subset.refl _
  | succ n ih =>
    rw [iteration_succ]
    exact List.Subset.trans ih (subset_body _)

theorem iteration_sound (input : List (Row α)) (n : Nat) :
    Friend (iteration input n) ≤ TransGen (Friend input) := by
  induction n with
  | zero => exact fun _ _ => .single
  | succ n ih =>
    rw [iteration_succ, friend_body]
    exact double_le_transGen.trans (TransGen.closed ih)

theorem nodup_iteration (input : List (Row α)) (n : Nat) : (iteration input (n + 1)).Nodup := by
  rw [iteration_succ]
  exact nodup_body _

theorem length_iteration_le (input : List (Row α)) (n : Nat) :
    (iteration input (n + 1)).length ≤ input.length * input.length := by
  let pairs := (input ×ˢ input).map fun rows : Row α × Row α =>
    ({ person := rows.1.person, friend := rows.2.friend } : Row α)
  have hsub : iteration input (n + 1) ⊆ pairs := by
    rintro ⟨a, b⟩ h
    have hab := iteration_sound input (n + 1) a b h
    obtain ⟨c, hac, _⟩ := TransGen.head'_iff.mp hab
    obtain ⟨d, _, hdb⟩ := TransGen.tail'_iff.mp hab
    exact List.mem_map.mpr ⟨(⟨a, c⟩, ⟨d, b⟩), List.mem_product.mpr ⟨hac, hdb⟩, rfl⟩
  have hle := ((nodup_iteration input n).subperm hsub).length_le
  rwa [List.length_map, List.length_product] at hle

/-! ## The test of the loop -/

/-- The test ends the loop after iteration `n + 1`. -/
def Ends (input : List (Row α)) (n : Nat) : Prop :=
  (iteration input n).length = (iteration input (n + 1)).length

theorem loop_iteration (fuel : Nat) (input : List (Row α)) (n : Nat) :
    (Ends input n → loop (fuel + 1) (iteration input n) = some (iteration input (n + 1))) ∧
    (¬ Ends input n →
      loop (fuel + 1) (iteration input n) = loop fuel (iteration input (n + 1))) := by
  unfold Ends
  rw [iteration_succ]
  exact ⟨fun h => if_neg (not_not.mpr h), fun h => if_pos h⟩

theorem loop_result {input : List (Row α)} {fuel n : Nat} {result : List (Row α)}
    (h : loop fuel (iteration input n) = some result) :
    ∃ k, n ≤ k ∧ result = iteration input (k + 1) ∧ Ends input k ∧
      ∀ j, n ≤ j → j < k → ¬ Ends input j := by
  induction fuel generalizing n with
  | zero => cases h
  | succ fuel ih =>
    rcases Classical.em (Ends input n) with hends | hgoes
    · rw [(loop_iteration fuel input n).1 hends] at h
      exact ⟨n, le_rfl, (Option.some.inj h).symm, hends, fun j hn hk => by omega⟩
    · rw [(loop_iteration fuel input n).2 hgoes] at h
      obtain ⟨k, hk, hresult, hends, hbefore⟩ := ih h
      refine ⟨k, by omega, hresult, hends, fun j hn hj => ?_⟩
      rcases hn.eq_or_lt with rfl | hlt
      · exact hgoes
      · exact hbefore j hlt hj

theorem loop_exits {input : List (Row α)} {n k : Nat} (h : Ends input (n + k)) :
    ∃ fuel result, loop fuel (iteration input n) = some result := by
  induction k generalizing n with
  | zero => exact ⟨1, _, (loop_iteration 0 input n).1 h⟩
  | succ k ih =>
    rcases Classical.em (Ends input n) with hends | hgoes
    · exact ⟨1, _, (loop_iteration 0 input n).1 hends⟩
    · obtain ⟨fuel, result, hloop⟩ := ih (n := n + 1) (by rwa [Nat.add_right_comm])
      exact ⟨fuel + 1, result, ((loop_iteration fuel input n).2 hgoes).trans hloop⟩

theorem length_le_succ (input : List (Row α)) (n : Nat) :
    (iteration input (n + 1)).length ≤ (iteration input (n + 2)).length := by
  have hsub : iteration input (n + 1) ⊆ iteration input (n + 2) := by
    rw [iteration_succ input (n + 1)]
    exact subset_body _
  exact ((nodup_iteration input n).subperm hsub).length_le

theorem exists_ends (input : List (Row α)) : ∃ n, Ends input n := by
  obtain ⟨n, h⟩ := exists_eq_succ (f := fun n => (iteration input (n + 1)).length)
    (length_le_succ input) (length_iteration_le input)
  exact ⟨n + 1, h⟩

/-- The loop exits, and all its iterations keep to the paths of the input. -/
theorem terminates_sound (input : List (Row α)) :
    (∃ fuel n, loop fuel input = some (iteration input (n + 1))) ∧
    ∀ n, input ⊆ iteration input (n + 1) ∧ (iteration input (n + 1)).Nodup ∧
      ∀ row ∈ iteration input (n + 1), TransGen (Friend input) row.person row.friend := by
  constructor
  · obtain ⟨n, hends⟩ := exists_ends input
    obtain ⟨fuel, result, hloop⟩ := loop_exits (n := 0) (by rwa [Nat.zero_add])
    obtain ⟨k, _, rfl, _⟩ := loop_result hloop
    exact ⟨fuel, k, hloop⟩
  · intro n
    exact ⟨subset_iteration input _, nodup_iteration input n,
      fun row hrow => iteration_sound input _ row.person row.friend hrow⟩

/-! ## Completeness -/

theorem complete_of_ends {input : List (Row α)} {n : Nat} (h : Ends input (n + 1)) :
    TransGen (Friend input) ≤ Friend (iteration input (n + 2)) := by
  have hsub : iteration input (n + 1) ⊆ iteration input (n + 2) := by
    rw [iteration_succ input (n + 1)]
    exact subset_body _
  have hperm := ((nodup_iteration input n).subperm hsub).perm_of_length_le (le_of_eq h.symm)
  have hclosed : double (Friend (iteration input (n + 1))) ≤ Friend (iteration input (n + 1)) := by
    rw [← friend_body, ← iteration_succ]
    exact friend_mono hperm.symm.subset
  exact (transGen_le_of_closed (friend_mono (subset_iteration input _)) hclosed).trans
    (friend_mono hsub)

/-- How many rows of the input are there already. -/
def repeatedRows (input : List (Row α)) : Nat := input.length - input.dedup.length

/-- The pairs joined from two rows that are not rows. -/
def newPairs (input : List (Row α)) : List (Row α) :=
  (join input input).dedup.filter (· ∉ input)

theorem body_perm (input : List (Row α)) :
    (body input).Perm (input.dedup ++ newPairs input) := by
  have hnodup : (input.dedup ++ newPairs input).Nodup := by
    refine (List.nodup_dedup _).append ((List.nodup_dedup _).filter _) fun row hrow hnew => ?_
    unfold newPairs at hnew
    rw [List.mem_filter, decide_eq_true_eq] at hnew
    exact hnew.2 (List.mem_dedup.mp hrow)
  refine (List.perm_ext_iff_of_nodup (nodup_body input) hnodup).mpr fun row => ?_
  unfold body newPairs
  simp only [List.mem_dedup, List.mem_append, List.mem_filter, decide_eq_true_eq]
  tauto

/-- The first test compares a count with repeated rows to one without. -/
theorem ends_zero_iff (input : List (Row α)) :
    Ends input 0 ↔ repeatedRows input = (newPairs input).length := by
  have hlength := (body_perm input).length_eq
  have hle := (List.dedup_sublist input).length_le
  rw [List.length_append] at hlength
  unfold Ends repeatedRows iteration
  simp only [Function.iterate_succ, Function.iterate_zero, id, Function.comp]
  omega

/-- The loop ends with the transitive closure, unless its first test ends it too early. -/
theorem complete_iff (input : List (Row α)) :
    (∃ fuel result, loop fuel input = some result ∧
      ∀ a b, TransGen (Friend input) a b → ⟨a, b⟩ ∈ result) ↔
    repeatedRows input ≠ (newPairs input).length ∨
      ∀ a b, TransGen (Friend input) a b →
        Friend input a b ∨ ∃ c, Friend input a c ∧ Friend input c b := by
  have hone : Friend (iteration input 1) = double (Friend input) := by
    rw [iteration_succ, friend_body]
    rfl
  constructor
  · rintro ⟨fuel, result, hloop, hcomplete⟩
    obtain ⟨k, _, rfl, hends, hbefore⟩ := loop_result (n := 0) hloop
    cases k with
    | zero =>
      refine .inr fun a b hab => ?_
      have hfriend : Friend (iteration input 1) a b := hcomplete a b hab
      rwa [hone] at hfriend
    | succ k => exact .inl (mt (ends_zero_iff input).mpr (hbefore 0 le_rfl k.succ_pos))
  · intro hcond
    obtain ⟨n, hn⟩ := exists_ends input
    obtain ⟨fuel, result, hloop⟩ := loop_exits (n := 0) (by rwa [Nat.zero_add])
    obtain ⟨k, _, rfl, hends, _⟩ := loop_result (n := 0) hloop
    refine ⟨fuel, _, hloop, ?_⟩
    cases k with
    | zero =>
      intro a b hab
      have hfriend : Friend (iteration input 1) a b := by
        rw [hone]
        exact hcond.resolve_left (not_not.mpr ((ends_zero_iff input).mp hends)) a b hab
      exact hfriend
    | succ k => exact complete_of_ends hends

/-- Three rows in a line, the first of them three times. -/
def lineRows : List (Row Nat) := [⟨0, 1⟩, ⟨0, 1⟩, ⟨0, 1⟩, ⟨1, 2⟩, ⟨2, 3⟩]

/-- There are as many repeated rows as new pairs, and `0` does not get its friend `3`. -/
theorem repeated_rows_incomplete :
    ¬ ∃ fuel result, loop fuel lineRows = some result ∧
      ∀ a b, TransGen (Friend lineRows) a b → ⟨a, b⟩ ∈ result := by
  rintro ⟨fuel, result, hloop, hcomplete⟩
  obtain ⟨k, _, rfl, _, hbefore⟩ := loop_result (n := 0) hloop
  obtain rfl : k = 0 := by
    by_contra hk
    exact hbefore 0 le_rfl (Nat.pos_of_ne_zero hk) rfl
  have h01 : Friend lineRows 0 1 := by decide
  have h12 : Friend lineRows 1 2 := by decide
  have h23 : Friend lineRows 2 3 := by decide
  exact absurd (hcomplete 0 3 (.tail (.tail (.single h01) h12) h23)) (by decide)

end Nsds.FriendsComputation
