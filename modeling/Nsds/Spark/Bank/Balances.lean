import Mathlib.Algebra.BigOperators.Group.List.Basic
import Nsds.Spark.Bank.Code

/-!
# Balances of accounts

Q3 and Q4 of the lab's program, for files in which no account and no amount is null. Both
come down to the totals of every account.
-/

namespace Nsds.Bank

open MachineInt Sql

/-- A row of which account and amount are not null. -/
structure Entry (S : Type) where
  person : Option S
  account : S
  amount : Int
deriving DecidableEq, Repr

variable {S : Type}

def Entry.row (entry : Entry S) : Row S where
  person := entry.person
  account := some entry.account
  amount := some entry.amount

def rowsOf (entries : List (Entry S)) : List (Row S) := entries.map Entry.row

def accounts (entries : List (Entry S)) : List S := entries.map Entry.account

def totalAmount (entries : List (Entry S)) : Int := (entries.map Entry.amount).sum

variable [DecidableEq S]

/-- The sum of the amounts of an account. -/
def amountOf (entries : List (Entry S)) (account : S) : Int :=
  totalAmount (entries.filter fun entry => entry.account = account)

/-- The same as a number of 64 bits. -/
def long (entries : List (Entry S)) (account : S) : Int := wrap 64 (amountOf entries account)

/-- The row of an account after the sum. -/
def groupOf (entries : List (Entry S)) (account : S) : GroupSum S :=
  { key := some account, sum := some (long entries account) }

/-! ## The tables that are joined -/

theorem filter_rowsOf (entries : List (Entry S)) (account : S) :
    ((rowsOf entries).filter fun row => row.account = some account).map Row.amount =
      ((entries.filter fun entry => entry.account = account).map Entry.amount).map some := by
  unfold rowsOf
  rw [List.filter_map, List.map_map, List.map_map]
  simp only [Function.comp_def, Entry.row, Option.some.injEq]

omit [DecidableEq S] in
theorem map_account_rowsOf (entries : List (Entry S)) :
    (rowsOf entries).map Row.account = (accounts entries).map some := by
  unfold rowsOf accounts
  rw [List.map_map, List.map_map]
  rfl

theorem groupBySum_rowsOf (entries : List (Entry S)) :
    groupBySum Row.account Row.amount (rowsOf entries) =
      (accounts entries).dedup.map (groupOf entries) := by
  unfold groupBySum
  rw [map_account_rowsOf, List.dedup_map_of_injective (Option.some_injective S), List.map_map]
  refine List.map_congr_left fun account haccount => ?_
  have hne : (entries.filter fun entry => entry.account = account).map Entry.amount ≠ [] := by
    obtain ⟨entry, hentry, rfl⟩ := List.mem_map.mp (List.mem_dedup.mp haccount)
    simp only [ne_eq, List.map_eq_nil_iff, List.filter_eq_nil_iff, decide_eq_true_eq]
    exact fun h => h entry hentry rfl
  simp only [Function.comp_apply, filter_rowsOf, sum_map_some hne]
  rfl

theorem find_groups (entries : List (Entry S)) (account : S) :
    ((accounts entries).dedup.map (groupOf entries)).find?
        (fun deposited => equalTo deposited.key (some account) = some true) =
      if account ∈ accounts entries then some (groupOf entries account) else none := by
  rw [List.find?_map]
  simp only [Function.comp_def, groupOf, equalTo, Option.some.injEq, decide_eq_true_eq]
  simp only [← List.mem_dedup (l := accounts entries)]
  induction (accounts entries).dedup with
  | nil => rfl
  | cons other others ih =>
    by_cases h : other = account
    · simp [h, groupOf]
    · simp only [List.find?_cons, h, decide_false, List.mem_cons, Ne.symm h, false_or]
      exact ih

theorem leftOuterJoin_eq (deposits withdrawals : List (Entry S)) :
    leftOuterJoin sameAccount (totWithdrawals (rowsOf withdrawals))
        (totDeposits (rowsOf deposits)) =
      (accounts withdrawals).dedup.map fun account => (groupOf withdrawals account,
        if account ∈ accounts deposits then some (groupOf deposits account) else none) := by
  unfold totWithdrawals totDeposits
  rw [groupBySum_rowsOf, groupBySum_rowsOf, leftOuterJoin_eq_map]
  · rw [List.map_map]
    refine List.map_congr_left fun account _ => ?_
    rw [← find_groups]
    rfl
  · simp only [List.forall_mem_map, List.pairwise_map]
    intro account _
    refine (List.nodup_dedup _).imp fun hne hboth => hne ?_
    simp only [sameAccount, groupOf, equalTo, Option.some.injEq, decide_eq_true_eq] at hboth
    exact hboth.1.trans hboth.2.symm

theorem fullOuterJoin_eq (deposits withdrawals : List (Entry S)) :
    fullOuterJoin sameAccount (totWithdrawals (rowsOf withdrawals))
        (totDeposits (rowsOf deposits)) =
      ((accounts withdrawals).dedup.map fun account => (some (groupOf withdrawals account),
        if account ∈ accounts deposits then some (groupOf deposits account) else none)) ++
      ((accounts deposits).dedup.filter fun account => account ∉ accounts withdrawals).map
        fun account => (none, some (groupOf deposits account)) := by
  unfold fullOuterJoin
  rw [leftOuterJoin_eq, List.map_map]
  unfold totWithdrawals totDeposits
  rw [groupBySum_rowsOf, groupBySum_rowsOf, List.filter_map, List.map_map]
  have hunmatched (account : S) : (∀ withdrawn ∈ (accounts withdrawals).dedup.map
      (groupOf withdrawals), sameAccount withdrawn (groupOf deposits account) ≠ some true) ↔
      account ∉ accounts withdrawals := by
    simp only [List.forall_mem_map, sameAccount, groupOf, equalTo, List.mem_dedup, ne_eq,
      Option.some.injEq, decide_eq_true_eq]
    exact ⟨fun h hmem => h account hmem rfl, fun h other hother heq => h (heq ▸ hother)⟩
  simp only [Function.comp_def, hunmatched]

/-! ## The two queries, account by account -/

/-- All accounts, once each. -/
def allAccounts (deposits withdrawals : List (Entry S)) : List S :=
  (accounts withdrawals).dedup ++
    (accounts deposits).dedup.filter fun account => account ∉ accounts withdrawals

theorem nodup_allAccounts (deposits withdrawals : List (Entry S)) :
    (allAccounts deposits withdrawals).Nodup := by
  unfold allAccounts
  refine (List.nodup_dedup _).append ((List.nodup_dedup _).filter _) fun account hw hd => ?_
  exact of_decide_eq_true (List.mem_filter.mp hd).2 (List.mem_dedup.mp hw)

theorem mem_allAccounts {deposits withdrawals : List (Entry S)} {account : S} :
    account ∈ allAccounts deposits withdrawals ↔
      account ∈ accounts deposits ∨ account ∈ accounts withdrawals := by
  unfold allAccounts
  simp only [List.mem_append, List.mem_filter, List.mem_dedup, decide_eq_true_eq]
  tauto

/-- Deposits less withdrawals, in 64 bits. -/
def balanceOf (deposits withdrawals : List (Entry S)) (account : S) : Int :=
  wrap 64 (long deposits account - long withdrawals account)

theorem long_of_not_mem {entries : List (Entry S)} {account : S}
    (h : account ∉ accounts entries) : long entries account = 0 := by
  have hnil : entries.filter (fun entry => entry.account = account) = [] := by
    unfold accounts at h
    simp only [List.mem_map, not_exists, not_and] at h
    simpa using h
  unfold long amountOf
  rw [hnil]
  rfl

theorem sumOrZero_eq (entries : List (Entry S)) (account : S) :
    sumOrZero (if account ∈ accounts entries then some (groupOf entries account) else none) =
      some (long entries account) := by
  by_cases h : account ∈ accounts entries
  · simp [h, sumOrZero, groupOf]
  · simp [h, sumOrZero, long_of_not_mem h]

theorem negative_iff (deposits withdrawals : List (Entry S)) (account : S) :
    let side := if account ∈ accounts deposits then some (groupOf deposits account) else none
    Sql.or (isNull (side.bind GroupSum.key))
        (gt (groupOf withdrawals account).sum (side.bind GroupSum.sum)) = some true ↔
      account ∉ accounts deposits ∨ long withdrawals account > long deposits account := by
  by_cases h : account ∈ accounts deposits
  · by_cases hgt : long withdrawals account > long deposits account <;>
      simp [h, hgt, Sql.or, isNull, gt, groupOf]
  · simp [h, Sql.or, isNull]

theorem mem_q3 {deposits withdrawals : List (Entry S)} {x : Option S} :
    x ∈ q3 (rowsOf deposits) (rowsOf withdrawals) ↔
      ∃ account, x = some account ∧ account ∈ accounts withdrawals ∧
        (account ∉ accounts deposits ∨ long withdrawals account > long deposits account) := by
  unfold q3
  rw [leftOuterJoin_eq]
  simp only [filter, List.filter_map, List.map_map, List.mem_map, List.mem_filter, List.mem_dedup,
    Function.comp_apply, decide_eq_true_eq, negative_iff]
  constructor
  · rintro ⟨account, ⟨hmem, hnegative⟩, rfl⟩
    exact ⟨account, rfl, hmem, hnegative⟩
  · rintro ⟨account, rfl, hmem, hnegative⟩
    exact ⟨account, ⟨hmem, hnegative⟩, rfl⟩

theorem q4_perm (deposits withdrawals : List (Entry S)) :
    (q4 (rowsOf deposits) (rowsOf withdrawals)).Perm
      ((allAccounts deposits withdrawals).map fun account =>
        { account := some account, balance := some (balanceOf deposits withdrawals account) }) := by
  have hside {entries : List (Entry S)} {account : S} (h : account ∈ accounts entries) :
      sumOrZero (some (groupOf entries account)) = some (long entries account) := by
    rw [← sumOrZero_eq, if_pos h]
  unfold q4
  rw [fullOuterJoin_eq]
  refine (orderByDesc_perm _ _).trans (List.Perm.of_eq ?_)
  unfold allAccounts
  rw [List.map_append, List.map_append, List.map_map, List.map_map]
  congr 1
  · refine List.map_congr_left fun account haccount => ?_
    simp only [Function.comp_apply, valueAccount, sumOrZero_eq,
      hside (List.mem_dedup.mp haccount)]
    by_cases h : account ∈ accounts deposits <;> simp [h, groupOf, minus, balanceOf]
  · refine List.map_congr_left fun account haccount => ?_
    obtain ⟨hdeposits, hwithdrawals⟩ := List.mem_filter.mp haccount
    simp only [Function.comp_apply, valueAccount, hside (List.mem_dedup.mp hdeposits)]
    simp [groupOf, sumOrZero, minus, balanceOf,
      long_of_not_mem (of_decide_eq_true hwithdrawals)]

theorem mem_q4 {deposits withdrawals : List (Entry S)} {row : Balance S} :
    row ∈ q4 (rowsOf deposits) (rowsOf withdrawals) ↔
      ∃ account, (account ∈ accounts deposits ∨ account ∈ accounts withdrawals) ∧
        row = { account := some account,
                balance := some (balanceOf deposits withdrawals account) } := by
  rw [(q4_perm deposits withdrawals).mem_iff]
  simp only [List.mem_map, mem_allAccounts]
  exact exists_congr fun account => by rw [eq_comm]

end Nsds.Bank
