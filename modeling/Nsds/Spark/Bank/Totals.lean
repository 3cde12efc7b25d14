import Nsds.Spark.Bank.Code

/-!
# Totals of persons and of accounts

The first two queries are about persons, but the lab's program groups by account.
-/

namespace Nsds.Bank

open Sql

variable {S : Type} [DecidableEq S]

/-- The sum of the amounts of the rows with `x` in a column. -/
def totalBy (column : Row S → Option S) (withdrawals : List (Row S)) (x : Option S) : Option Int :=
  sum ((withdrawals.filter fun row => column row = x).map Row.amount)

/-- `x` has the greatest of all totals of a column. -/
def Maximal (column : Row S → Option S) (withdrawals : List (Row S)) (x : Option S) : Prop :=
  x ∈ withdrawals.map column ∧ ∃ total, totalBy column withdrawals x = some total ∧
    ∀ y ∈ withdrawals.map column, ∀ n, totalBy column withdrawals y = some n → n ≤ total

theorem mem_totals {column : Row S → Option S} {withdrawals : List (Row S)} {x : Option S}
    {total : Option Int} :
    { key := x, sum := total } ∈ groupBySum column Row.amount withdrawals ↔
      x ∈ withdrawals.map column ∧ total = totalBy column withdrawals x :=
  mem_groupBySum

theorem sum_mem_totals {column : Row S → Option S} {withdrawals : List (Row S)} {n : Int} :
    some n ∈ (groupBySum column Row.amount withdrawals).map GroupSum.sum ↔
      ∃ x ∈ withdrawals.map column, totalBy column withdrawals x = some n := by
  rw [List.mem_map]
  constructor
  · rintro ⟨⟨x, total⟩, hgroup, rfl⟩
    obtain ⟨hx, htotal⟩ := mem_totals.mp hgroup
    exact ⟨x, hx, htotal.symm⟩
  · rintro ⟨x, hx, htotal⟩
    exact ⟨⟨x, some n⟩, mem_totals.mpr ⟨hx, htotal.symm⟩, rfl⟩

theorem mem_rows_with_total {column : Row S → Option S} {withdrawals : List (Row S)} {x : Option S}
    {total : Int} :
    x ∈ (filter (fun row => equalTo row.sum (some total))
      (groupBySum column Row.amount withdrawals)).map GroupSum.key ↔
    x ∈ withdrawals.map column ∧ totalBy column withdrawals x = some total := by
  unfold filter
  simp only [List.mem_map, List.mem_filter, decide_eq_true_eq, equalTo_eq_true_iff]
  constructor
  · rintro ⟨⟨_, sum⟩, ⟨hgroup, hsum⟩, rfl⟩
    obtain ⟨hx, htotal⟩ := mem_totals.mp hgroup
    exact ⟨List.mem_map.mp hx, htotal.symm.trans hsum⟩
  · rintro ⟨hx, htotal⟩
    exact ⟨⟨x, some total⟩, ⟨mem_totals.mpr ⟨List.mem_map.mpr hx, htotal.symm⟩, rfl⟩, rfl⟩

theorem mem_maximal_rows {column : Row S → Option S} {withdrawals : List (Row S)} {x : Option S} :
    (∃ maximum, maxOf ((groupBySum column Row.amount withdrawals).map GroupSum.sum) = some maximum ∧
      x ∈ (filter (fun row => equalTo row.sum (some maximum))
        (groupBySum column Row.amount withdrawals)).map GroupSum.key) ↔
      Maximal column withdrawals x := by
  simp only [mem_rows_with_total, maxOf_eq_some_iff, sum_mem_totals]
  unfold Maximal
  constructor
  · rintro ⟨maximum, ⟨-, hmax⟩, hx, htotal⟩
    exact ⟨hx, maximum, htotal, fun y hy n hn => hmax n ⟨y, hy, hn⟩⟩
  · rintro ⟨hx, maximum, htotal, hmax⟩
    refine ⟨maximum, ⟨⟨x, hx, htotal⟩, ?_⟩, hx, htotal⟩
    rintro n ⟨y, hy, hn⟩
    exact hmax y hy n hn

/-! ## What the queries are to answer -/

/-- Q1 has a row with the total of every person, and Q2 lists the persons whose total is the
greatest. -/
structure Answers (withdrawals : List (Row S)) : Prop where
  q1 : ∀ x total, { key := x, sum := total } ∈ q1 withdrawals ↔
    x ∈ withdrawals.map Row.person ∧ total = totalBy Row.person withdrawals x
  q2 : ∀ x, (∃ rows, q2 withdrawals = some rows ∧ x ∈ rows) ↔ Maximal Row.person withdrawals x

/-- Both queries return the rows of the tutorial's, of Q2 the persons, or throw where it does. -/
structure SameRows (withdrawals : List (Row S)) : Prop where
  q1 : (q1 withdrawals).Perm (Tutorial.q1 withdrawals)
  q2 : Option.Rel List.Perm (q2 withdrawals)
    ((Tutorial.q2 withdrawals).map fun rows => rows.map GroupSum.key)

/-- What names a person names an account and the other way round, and has the same total as
both. -/
def SameTotals (withdrawals : List (Row S)) : Prop :=
  ∀ x, (x ∈ withdrawals.map Row.account ↔ x ∈ withdrawals.map Row.person) ∧
    totalBy Row.account withdrawals x = totalBy Row.person withdrawals x

variable {withdrawals : List (Row S)}

theorem totalBy_of_not_mem {column : Row S → Option S} {x : Option S}
    (hx : x ∉ withdrawals.map column) : totalBy column withdrawals x = none := by
  have hnil : withdrawals.filter (fun row => column row = x) = [] := by
    simp only [List.mem_map, not_exists, not_and] at hx
    simpa using hx
  unfold totalBy
  rw [hnil]
  rfl

theorem mem_q1 {x : Option S} {total : Option Int} :
    { key := x, sum := total } ∈ q1 withdrawals ↔
      x ∈ withdrawals.map Row.account ∧ total = totalBy Row.account withdrawals x :=
  mem_totals

theorem mem_tutorial_q1 {x : Option S} {total : Option Int} :
    { key := x, sum := total } ∈ Tutorial.q1 withdrawals ↔
      x ∈ withdrawals.map Row.person ∧ total = totalBy Row.person withdrawals x :=
  mem_totals

theorem sameTotals_iff : SameTotals withdrawals ↔
    ∀ x total, { key := x, sum := total } ∈ q1 withdrawals ↔
      { key := x, sum := total } ∈ Tutorial.q1 withdrawals := by
  simp only [mem_q1, mem_tutorial_q1]
  constructor
  · intro h x total
    rw [(h x).1, (h x).2]
  · intro h x
    by_cases haccount : x ∈ withdrawals.map Row.account
    · obtain ⟨hperson, htotal⟩ := (h x _).mp ⟨haccount, rfl⟩
      exact ⟨iff_of_true haccount hperson, htotal⟩
    · have hperson : x ∉ withdrawals.map Row.person := fun hperson =>
        haccount ((h x _).mpr ⟨hperson, rfl⟩).1
      refine ⟨iff_of_false haccount hperson, ?_⟩
      rw [totalBy_of_not_mem haccount, totalBy_of_not_mem hperson]

theorem SameTotals.perm (h : SameTotals withdrawals) :
    (q1 withdrawals).Perm (Tutorial.q1 withdrawals) := by
  refine (List.perm_ext_iff_of_nodup nodup_groupBySum nodup_groupBySum).mpr ?_
  rintro ⟨x, total⟩
  exact sameTotals_iff.mp h x total

theorem mem_q2 {x : Option S} : (∃ rows, q2 withdrawals = some rows ∧ x ∈ rows) ↔
    Maximal Row.account withdrawals x := by
  rw [← mem_maximal_rows]
  unfold q2
  simp only [Option.map_eq_some_iff, exists_exists_and_eq_and]
  rfl

theorem rel_q2 (h : (q1 withdrawals).Perm (Tutorial.q1 withdrawals)) :
    Option.Rel List.Perm (q2 withdrawals)
      ((Tutorial.q2 withdrawals).map fun rows => rows.map GroupSum.key) := by
  have hmax : maxOf ((totWithdrawals withdrawals).map GroupSum.sum) =
      maxOf ((Tutorial.sumWithdrawals withdrawals).map GroupSum.sum) := maxOf_perm (h.map _)
  unfold q2 Tutorial.q2
  rw [hmax]
  rcases maxOf ((Tutorial.sumWithdrawals withdrawals).map GroupSum.sum) with _ | maximum
  · exact .none
  · exact .some ((h.filter _).map _)

/-- The two queries answer what is asked exactly if totals of accounts are totals of persons, and
only then they return the rows of the tutorial's program. -/
theorem withdrawals_answered_iff (withdrawals : List (Row S)) :
    (Answers withdrawals ↔ SameTotals withdrawals) ∧
      (SameRows withdrawals ↔ SameTotals withdrawals) := by
  constructor
  · constructor
    · intro h
      simp only [sameTotals_iff, mem_tutorial_q1]
      exact h.q1
    · intro h
      refine ⟨fun x total => (sameTotals_iff.mp h x total).trans mem_tutorial_q1, fun x => ?_⟩
      rw [mem_q2]
      unfold Maximal
      simp only [(h _).1, (h _).2]
  · constructor
    · intro h
      exact sameTotals_iff.mpr fun x total => h.q1.mem_iff
    · intro h
      exact ⟨h.perm, rel_q2 h.perm⟩

theorem account_listed : ¬ Answers [(⟨some "Alice", some "A1", some 10⟩ : Row String)] ∧
    ¬ SameRows [(⟨some "Alice", some "A1", some 10⟩ : Row String)] := by
  constructor
  · intro h
    exact absurd ((h.q1 (some "A1") (some 10)).mp (by decide)) (by decide)
  · intro h
    exact absurd (h.q1.mem_iff (a := ⟨some "A1", some 10⟩)) (by decide)

end Nsds.Bank
