import Nsds.Spark.Bank.Balances
import Nsds.Spark.Bank.Totals

/-!
# Negative accounts in the tutorial

Q3 of the tutorial's program takes an account without deposits for one with deposits of
nothing. The account that is null is never joined.
-/

namespace Nsds.Bank

open MachineInt Sql

variable {S : Type} [DecidableEq S]

namespace Tutorial

/-- The total of the deposits that the join finds. -/
def deposited (deposits : List (Row S)) (account : Option S) : Option Int :=
  if account = none then none else totalBy Row.account deposits account

omit [DecidableEq S] in
theorem negative_iff {withdrawn : GroupSum S} {deposited : Option (GroupSum S)} :
    negative withdrawn deposited = some true ↔ ∃ total, withdrawn.sum = some total ∧
      ((deposited.bind GroupSum.sum).getD 0) < total := by
  unfold negative
  rw [or_eq_true_iff, and_eq_true_iff, gt_eq_true_iff, gt_eq_true_iff]
  cases deposited.bind GroupSum.sum <;> simp [isNull]

theorem leftOuterJoin_groups (deposits withdrawals : List (Row S)) :
    leftOuterJoin sameAccount (totWithdrawals withdrawals) (totDeposits deposits) =
      (totWithdrawals withdrawals).map fun withdrawn => (withdrawn,
        (totDeposits deposits).find? fun deposited =>
          sameAccount withdrawn deposited = some true) := by
  apply leftOuterJoin_eq_map
  intro withdrawn _
  have hnodup : ((totDeposits deposits).map GroupSum.key).Nodup := by
    unfold totDeposits
    rw [map_key_groupBySum]
    exact List.nodup_dedup _
  refine (List.pairwise_map.mp hnodup).imp fun hne hboth => hne ?_
  obtain ⟨k, hk, hk'⟩ := equalTo_iff.mp hboth.1
  obtain ⟨l, hl, hl'⟩ := equalTo_iff.mp hboth.2
  rw [hk, hl, ← hk', ← hl']

theorem find_deposited (deposits : List (Row S)) (withdrawn : GroupSum S) :
    ((totDeposits deposits).find? fun deposited =>
      sameAccount withdrawn deposited = some true).bind GroupSum.sum =
        deposited deposits withdrawn.key := by
  unfold deposited
  cases hfind : (totDeposits deposits).find? fun deposited =>
      sameAccount withdrawn deposited = some true with
  | none =>
    rw [List.find?_eq_none] at hfind
    split
    · rfl
    · next hkey =>
      obtain ⟨account, hkey⟩ := Option.ne_none_iff_exists'.mp hkey
      refine (totalBy_of_not_mem fun hmem => ?_).symm
      refine hfind _ (mem_totals.mpr ⟨hmem, rfl⟩) ?_
      simp [sameAccount, equalTo, hkey]
  | some group =>
    have hmem := List.mem_of_find?_eq_some hfind
    have hsame : sameAccount withdrawn group = some true := by
      simpa using List.find?_some hfind
    obtain ⟨account, hgroup, hkey⟩ := equalTo_iff.mp hsame
    rw [if_neg (by simp [hkey]), hkey, ← hgroup]
    exact (mem_totals.mp hmem).2

theorem q3_eq (deposits withdrawals : List (Row S)) :
    q3 deposits withdrawals = ((totWithdrawals withdrawals).filter fun withdrawn =>
      ∃ total, withdrawn.sum = some total ∧
        (deposited deposits withdrawn.key).getD 0 < total).map GroupSum.key := by
  unfold q3
  rw [leftOuterJoin_groups]
  simp only [filter, List.filter_map, List.map_map, Function.comp_def, negative_iff, find_deposited]

theorem nodup_q3 (deposits withdrawals : List (Row S)) : (q3 deposits withdrawals).Nodup := by
  have hnodup : ((totWithdrawals withdrawals).map GroupSum.key).Nodup := by
    unfold totWithdrawals
    rw [map_key_groupBySum]
    exact List.nodup_dedup _
  rw [q3_eq]
  exact (List.filter_sublist.map _).nodup hnodup

theorem mem_q3_iff {deposits withdrawals : List (Row S)} {account : Option S} :
    account ∈ q3 deposits withdrawals ↔
      ∃ total, totalBy Row.account withdrawals account = some total ∧
        (deposited deposits account).getD 0 < total := by
  rw [q3_eq]
  simp only [List.mem_map, List.mem_filter, decide_eq_true_eq]
  constructor
  · rintro ⟨⟨_, _⟩, ⟨hmem, total, rfl, hlt⟩, rfl⟩
    exact ⟨total, (mem_totals.mp hmem).2.symm, hlt⟩
  · rintro ⟨total, htotal, hlt⟩
    have hmem : account ∈ withdrawals.map Row.account := by
      by_contra hmem
      rw [totalBy_of_not_mem hmem] at htotal
      cases htotal
    exact ⟨⟨account, some total⟩, ⟨mem_totals.mpr ⟨hmem, htotal.symm⟩, total, rfl, hlt⟩, rfl⟩

/-- Q3 lists, once each, the accounts from which more was withdrawn than was deposited. -/
theorem tutorial_q3_iff (deposits withdrawals : List (Row S)) :
    (q3 deposits withdrawals).Nodup ∧ ∀ account, account ∈ q3 deposits withdrawals ↔
      ∃ total, totalBy Row.account withdrawals account = some total ∧
        (deposited deposits account).getD 0 < total :=
  ⟨nodup_q3 deposits withdrawals, fun _ => mem_q3_iff⟩

/-! ## Against the balances of the lab -/

theorem totalBy_rowsOf (entries : List (Entry S)) (account : S) :
    totalBy Row.account (rowsOf entries) (some account) =
      if account ∈ accounts entries then some (long entries account) else none := by
  split
  · next hmem =>
    obtain ⟨entry, hentry, rfl⟩ := List.mem_map.mp hmem
    unfold totalBy
    rw [filter_rowsOf, sum_map_some]
    · rfl
    · simp only [ne_eq, List.map_eq_nil_iff, List.filter_eq_nil_iff, decide_eq_true_eq]
      exact fun h => h entry hentry rfl
  · next hmem =>
    apply totalBy_of_not_mem
    rw [map_account_rowsOf]
    simpa using hmem

variable {deposits withdrawals : List (Entry S)}

theorem mem_tutorial_q3 (account : S) :
    some account ∈ q3 (rowsOf deposits) (rowsOf withdrawals) ↔
      account ∈ accounts withdrawals ∧ long deposits account < long withdrawals account := by
  have hdeposited : (deposited (rowsOf deposits) (some account)).getD 0 =
      long deposits account := by
    unfold deposited
    rw [if_neg (by simp), totalBy_rowsOf]
    split
    · rfl
    · next hmem => rw [long_of_not_mem hmem, Option.getD_none]
  rw [mem_q3_iff, totalBy_rowsOf, hdeposited]
  split
  · next hmem => simp [hmem]
  · next hmem => simp [hmem]

theorem none_not_mem_q3 : none ∉ q3 (rowsOf deposits) (rowsOf withdrawals) := by
  rw [mem_q3_iff, totalBy_of_not_mem]
  · simp
  · rw [map_account_rowsOf]
    simp

theorem q4_negative (x : Option S) : (∃ row ∈ Bank.q4 (rowsOf deposits) (rowsOf withdrawals),
    row.account = x ∧ ∃ balance, row.balance = some balance ∧ balance < 0) ↔
      ∃ account, x = some account ∧ (account ∈ accounts deposits ∨ account ∈ accounts withdrawals) ∧
        balanceOf deposits withdrawals account < 0 := by
  constructor
  · rintro ⟨row, hrow, rfl, balance, hbalance, hneg⟩
    obtain ⟨account, hmem, rfl⟩ := mem_q4.mp hrow
    obtain rfl := Option.some.inj hbalance
    exact ⟨account, rfl, hmem, hneg⟩
  · rintro ⟨account, rfl, hmem, hneg⟩
    exact ⟨_, mem_q4.mpr ⟨account, hmem, rfl⟩, rfl, _, rfl, hneg⟩

/-- Where the two disagree about an account: it has no withdrawals and its deposits are negative,
or the difference of its totals does not fit in 64 bits. -/
theorem agree_iff (account : S) :
    ((account ∈ accounts withdrawals ∧ long deposits account < long withdrawals account) ↔
      (account ∈ accounts deposits ∨ account ∈ accounts withdrawals) ∧
        balanceOf deposits withdrawals account < 0) ↔
    (account ∉ accounts withdrawals → 0 ≤ long deposits account) ∧
      (account ∈ accounts withdrawals →
        -2 ^ 63 ≤ long deposits account - long withdrawals account ∧
          long deposits account - long withdrawals account < 2 ^ 63) := by
  have hwithdrawn : -2 ^ 63 ≤ long withdrawals account ∧ long withdrawals account < 2 ^ 63 :=
    wrap_long_bounds _
  have hdeposited : -2 ^ 63 ≤ long deposits account ∧ long deposits account < 2 ^ 63 :=
    wrap_long_bounds _
  have hsub := wrap_long_sub_neg_iff hdeposited hwithdrawn
  unfold balanceOf
  by_cases hw : account ∈ accounts withdrawals
  · simp only [hw, or_true, true_and, not_true_eq_false, IsEmpty.forall_iff, forall_const]
    omega
  · rw [long_of_not_mem hw] at hsub ⊢
    by_cases hd : account ∈ accounts deposits
    · simp only [hw, hd, true_or, true_and, false_and, not_false_eq_true, forall_const,
        IsEmpty.forall_iff, and_true, false_iff]
      omega
    · simp [hw, hd, long_of_not_mem hd]

/-- Q3 lists the accounts to which Q4 of the lab gives a negative balance exactly if that is so of
every account on its own. -/
theorem tutorial_q3_negative_iff (deposits withdrawals : List (Entry S)) :
    (∀ x, x ∈ q3 (rowsOf deposits) (rowsOf withdrawals) ↔
      ∃ row ∈ Bank.q4 (rowsOf deposits) (rowsOf withdrawals), row.account = x ∧
        ∃ balance, row.balance = some balance ∧ balance < 0) ↔
    ∀ account, (account ∉ accounts withdrawals → 0 ≤ long deposits account) ∧
      (account ∈ accounts withdrawals →
        -2 ^ 63 ≤ long deposits account - long withdrawals account ∧
          long deposits account - long withdrawals account < 2 ^ 63) := by
  simp only [← agree_iff, q4_negative]
  constructor
  · intro h account
    rw [← mem_tutorial_q3, h]
    simp
  · intro h x
    rcases x with _ | account
    · simp [none_not_mem_q3]
    · rw [mem_tutorial_q3, h]
      simp

end Tutorial

end Nsds.Bank
