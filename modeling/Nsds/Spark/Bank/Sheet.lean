import Mathlib.Algebra.Order.BigOperators.Group.List
import Mathlib.Algebra.Order.Group.Int
import Mathlib.Algebra.Order.Group.Nat
import Mathlib.Data.Int.Order.Basic
import Nsds.Spark.Bank.Balances

/-!
# The balance sheet

Q4 has every account once, with its balance as a number of 64 bits. Only sums of more than
four billion rows can leave these.
-/

namespace Nsds.Bank

open MachineInt Pairs Sql

variable {S : Type} [DecidableEq S]

/-- The deposits of an account minus its withdrawals. -/
def difference (deposits withdrawals : List (Entry S)) (account : S) : Int :=
  amountOf deposits account - amountOf withdrawals account

/-- Every account once with its balance, the greatest first. -/
structure BalanceSheet (deposits withdrawals : List (Entry S)) (rows : List (Balance S)) :
    Prop where
  once : (rows.map Balance.account).Nodup
  all : ∀ x, x ∈ rows.map Balance.account ↔
    ∃ account, x = some account ∧ (account ∈ accounts deposits ∨ account ∈ accounts withdrawals)
  balance : ∀ row ∈ rows, ∀ account, row.account = some account →
    row.balance = some (wrap 64 (difference deposits withdrawals account))
  sorted : rows.Pairwise fun row next =>
    ∀ b b', row.balance = some b → next.balance = some b' → b' ≤ b
  total : wrap 64 (rows.filterMap Balance.balance).sum =
    wrap 64 (totalAmount deposits - totalAmount withdrawals)

/-- The balances are those of the integers. -/
structure Exact (deposits withdrawals : List (Entry S)) (rows : List (Balance S)) : Prop where
  balance : ∀ row ∈ rows, ∀ account, row.account = some account →
    row.balance = some (difference deposits withdrawals account)
  total : (rows.filterMap Balance.balance).sum = totalAmount deposits - totalAmount withdrawals

/-- How much money is moved in all. -/
def volume (entries : List (Entry S)) : Nat :=
  (entries.map fun entry => entry.amount.natAbs).sum

variable {deposits withdrawals : List (Entry S)}

theorem balanceOf_eq (account : S) : balanceOf deposits withdrawals account =
    wrap 64 (difference deposits withdrawals account) := wrap_sub_wrap ..

theorem sum_difference :
    ((allAccounts deposits withdrawals).map (difference deposits withdrawals)).sum =
      totalAmount deposits - totalAmount withdrawals := by
  have hdeposits : ((allAccounts deposits withdrawals).map (amountOf deposits)).sum =
      totalAmount deposits :=
    sum_by_key Entry.amount (nodup_allAccounts _ _) fun entry hentry =>
      mem_allAccounts.mpr (.inl (List.mem_map_of_mem hentry))
  have hwithdrawals : ((allAccounts deposits withdrawals).map (amountOf withdrawals)).sum =
      totalAmount withdrawals :=
    sum_by_key Entry.amount (nodup_allAccounts _ _) fun entry hentry =>
      mem_allAccounts.mpr (.inr (List.mem_map_of_mem hentry))
  rw [← hdeposits, ← hwithdrawals]
  apply eq_sub_of_add_eq
  rw [← List.sum_map_add]
  simp [difference]

theorem map_account_perm : ((q4 (rowsOf deposits) (rowsOf withdrawals)).map Balance.account).Perm
    ((allAccounts deposits withdrawals).map some) := by
  have hmap := (q4_perm deposits withdrawals).map Balance.account
  rwa [List.map_map] at hmap

theorem filterMap_balance_perm :
    ((q4 (rowsOf deposits) (rowsOf withdrawals)).filterMap Balance.balance).Perm
      ((allAccounts deposits withdrawals).map fun account =>
        wrap 64 (difference deposits withdrawals account)) := by
  have hmap := (q4_perm deposits withdrawals).filterMap Balance.balance
  rw [List.filterMap_map] at hmap
  simpa only [Function.comp_def, balanceOf_eq, List.filterMap_eq_map'] using hmap

theorem balance_eq {row : Balance S} (hrow : row ∈ q4 (rowsOf deposits) (rowsOf withdrawals))
    {account : S} (haccount : row.account = some account) :
    row.balance = some (wrap 64 (difference deposits withdrawals account)) := by
  obtain ⟨_, -, rfl⟩ := mem_q4.mp hrow
  obtain rfl := Option.some.inj haccount
  simp only [balanceOf_eq]

/-! ## Balances that fit -/

omit [DecidableEq S] in
theorem natAbs_totalAmount_le (entries : List (Entry S)) :
    (totalAmount entries).natAbs ≤ volume entries := by
  unfold totalAmount volume
  induction entries with
  | nil => simp
  | cons entry entries ih =>
    rw [List.map_cons, List.sum_cons, List.map_cons, List.sum_cons]
    have := Int.natAbs_add_le entry.amount (entries.map Entry.amount).sum
    omega

theorem natAbs_amountOf_le (entries : List (Entry S)) (account : S) :
    (amountOf entries account).natAbs ≤ volume entries :=
  (natAbs_totalAmount_le _).trans ((List.filter_sublist.map _).sum_le_sum (by simp))

theorem wrap_difference (hvolume : volume deposits + volume withdrawals < 2 ^ 63) (account : S) :
    wrap 64 (difference deposits withdrawals account) =
      difference deposits withdrawals account := by
  have hdeposits := natAbs_amountOf_le deposits account
  have hwithdrawals := natAbs_amountOf_le withdrawals account
  unfold difference
  exact wrap_of_fits (by omega) (by omega)

/-- Q4 is a balance sheet, of the exact balances as long as their volume fits in 64 bits. -/
theorem balance_sheet (deposits withdrawals : List (Entry S)) :
    BalanceSheet deposits withdrawals (q4 (rowsOf deposits) (rowsOf withdrawals)) ∧
      (volume deposits + volume withdrawals < 2 ^ 63 →
        Exact deposits withdrawals (q4 (rowsOf deposits) (rowsOf withdrawals))) := by
  refine ⟨{ once := ?_, all := ?_, balance := ?_, sorted := ?_, total := ?_ }, fun hvolume =>
    { balance := ?_, total := ?_ }⟩
  · rw [map_account_perm.nodup_iff]
    exact (nodup_allAccounts _ _).map (Option.some_injective S)
  · intro x
    rw [map_account_perm.mem_iff]
    simp only [List.mem_map, mem_allAccounts]
    exact exists_congr fun account => by rw [and_comm, eq_comm]
  · exact fun row hrow account haccount => balance_eq hrow haccount
  · unfold q4
    refine (pairwise_orderByDesc Balance.balance _).imp fun {row next} hle b b' hb hb' => ?_
    simpa [hb, hb', descending] using hle
  · rw [filterMap_balance_perm.sum_eq, wrap_sum_wrap, sum_difference]
  · intro row hrow account haccount
    rw [balance_eq hrow haccount, wrap_difference hvolume]
  · rw [filterMap_balance_perm.sum_eq]
    simp only [wrap_difference hvolume]
    exact sum_difference

/-! ## Too many rows -/

/-- Deposits of the highest amount there is. -/
def highest (rows : Nat) : List (Entry String) :=
  List.replicate rows { person := some "Alice", account := "A1", amount := 2147483647 }

theorem difference_highest (rows : Nat) :
    difference (highest rows) [] "A1" = rows * 2147483647 := by
  simp [difference, amountOf, highest, totalAmount]

theorem deposits_lost : ∃ row ∈ q4 (rowsOf (highest 4294967299)) (rowsOf []),
    row.account = some "A1" ∧ row.balance ≠ some (difference (highest 4294967299) [] "A1") := by
  refine ⟨_, mem_q4.mpr ⟨"A1", .inl ?_, rfl⟩, rfl, ?_⟩
  · exact List.mem_map.mpr ⟨_, List.mem_replicate.mpr ⟨by decide, rfl⟩, rfl⟩
  · rw [balanceOf_eq, difference_highest]
    decide

end Nsds.Bank
