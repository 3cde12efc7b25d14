import Mathlib.Tactic.MkIffOfInductiveProp
import Nsds.Spark.Bank.Balances

/-!
# Negative balances

Q3 joins from the side of the withdrawals, and takes an account without deposits for
overdrawn.
-/

namespace Nsds.Bank

open MachineInt

variable {S : Type} [DecidableEq S]

/-- Q3 lists the accounts that have a negative balance in Q4. -/
def SameAccounts (deposits withdrawals : List (Entry S)) : Prop :=
  ∀ x, x ∈ q3 (rowsOf deposits) (rowsOf withdrawals) ↔
    ∃ row ∈ q4 (rowsOf deposits) (rowsOf withdrawals), row.account = x ∧
      ∃ balance, row.balance = some balance ∧ balance < 0

/-- Withdrawals without deposits have a positive total, deposits without withdrawals one that is
not negative, and the difference of two totals fits in 64 bits. The least number of 64 bits
is its own negative. -/
@[mk_iff]
structure Regular (deposits withdrawals : List (Entry S)) (account : S) : Prop where
  onlyWithdrawals : account ∈ accounts withdrawals → account ∉ accounts deposits →
    0 < long withdrawals account ∨ long withdrawals account = -2 ^ 63
  onlyDeposits : account ∈ accounts deposits → account ∉ accounts withdrawals →
    0 ≤ long deposits account
  both : account ∈ accounts deposits → account ∈ accounts withdrawals →
    -2 ^ 63 ≤ long deposits account - long withdrawals account ∧
      long deposits account - long withdrawals account < 2 ^ 63

variable {deposits withdrawals : List (Entry S)}

theorem sameAccounts_iff : SameAccounts deposits withdrawals ↔ ∀ account,
    (account ∈ accounts withdrawals ∧
      (account ∉ accounts deposits ∨ long withdrawals account > long deposits account)) ↔
    ((account ∈ accounts deposits ∨ account ∈ accounts withdrawals) ∧
      balanceOf deposits withdrawals account < 0) := by
  have hq3 (account : S) : some account ∈ q3 (rowsOf deposits) (rowsOf withdrawals) ↔
      account ∈ accounts withdrawals ∧
        (account ∉ accounts deposits ∨ long withdrawals account > long deposits account) := by
    simp [mem_q3]
  have hq4 (x : Option S) : (∃ row ∈ q4 (rowsOf deposits) (rowsOf withdrawals),
      row.account = x ∧ ∃ balance, row.balance = some balance ∧ balance < 0) ↔
      ∃ account, x = some account ∧
        (account ∈ accounts deposits ∨ account ∈ accounts withdrawals) ∧
          balanceOf deposits withdrawals account < 0 := by
    constructor
    · rintro ⟨row, hrow, rfl, balance, hbalance, hneg⟩
      obtain ⟨account, hmem, rfl⟩ := mem_q4.mp hrow
      obtain rfl := Option.some.inj hbalance
      exact ⟨account, rfl, hmem, hneg⟩
    · rintro ⟨account, rfl, hmem, hneg⟩
      exact ⟨_, mem_q4.mpr ⟨account, hmem, rfl⟩, rfl, _, rfl, hneg⟩
  unfold SameAccounts
  simp only [hq4]
  constructor
  · intro h account
    rw [← hq3, h]
    simp
  · intro h x
    rcases x with _ | account
    · simp [mem_q3]
    · rw [hq3, h]
      simp

theorem regular_iff_agree (account : S) : Regular deposits withdrawals account ↔
    ((account ∈ accounts withdrawals ∧
      (account ∉ accounts deposits ∨ long withdrawals account > long deposits account)) ↔
    ((account ∈ accounts deposits ∨ account ∈ accounts withdrawals) ∧
      balanceOf deposits withdrawals account < 0)) := by
  have hwithdrawn : -2 ^ 63 ≤ long withdrawals account ∧ long withdrawals account < 2 ^ 63 :=
    wrap_long_bounds _
  have hdeposited : -2 ^ 63 ≤ long deposits account ∧ long deposits account < 2 ^ 63 :=
    wrap_long_bounds _
  have hsub := wrap_long_sub_neg_iff hdeposited hwithdrawn
  rw [regular_iff]
  unfold balanceOf
  by_cases hw : account ∈ accounts withdrawals
  · by_cases hd : account ∈ accounts deposits
    · simp only [hw, hd, not_true_eq_false, false_or, or_true, true_and, IsEmpty.forall_iff,
        forall_const]
      omega
    · rw [long_of_not_mem hd] at hsub ⊢
      simp only [hw, hd, not_false_eq_true, true_or, or_true, true_and, IsEmpty.forall_iff,
        forall_const, and_true, true_iff]
      omega
  · by_cases hd : account ∈ accounts deposits
    · rw [long_of_not_mem hw] at hsub ⊢
      simp only [hw, hd, true_and, false_and, or_false, IsEmpty.forall_iff, forall_const,
        not_false_eq_true, and_true, false_iff]
      omega
    · simp [hw, hd]

/-- Q3 agrees with Q4 exactly if every account is regular. -/
theorem negative_balances_agree_iff (deposits withdrawals : List (Entry S)) :
    SameAccounts deposits withdrawals ↔ ∀ account, Regular deposits withdrawals account := by
  simp only [sameAccounts_iff, regular_iff_agree]

/-- A withdrawal of nothing from an account without deposits, and a negative deposit. -/
theorem overdrawn_by_nothing :
    ¬ SameAccounts ([] : List (Entry String)) [⟨some "Alice", "A1", 0⟩] ∧
      ¬ SameAccounts [(⟨some "Alice", "A1", -5⟩ : Entry String)] [] := by
  constructor
  · intro h
    exact absurd (sameAccounts_iff.mp h "A1") (by decide)
  · intro h
    exact absurd (sameAccounts_iff.mp h "A1") (by decide)

end Nsds.Bank
