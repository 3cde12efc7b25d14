import Nsds.Lib.Sql

/-!
# `spark/NSDS_spark_lab`, `bank/Bank.java`

The four queries, and the three of the tutorial's `batch/bank/Bank.java`. All columns may be
null, and sums of amounts are numbers of 64 bits.
-/

namespace Nsds.Bank

open Sql

/-- A row of `deposits.csv` or `withdrawals.csv`. -/
structure Row (S : Type) where
  person : Option S
  account : Option S
  amount : Option Int
deriving DecidableEq, Repr

/-- A row of Q4. -/
structure Balance (S : Type) where
  account : Option S
  balance : Option Int
deriving DecidableEq, Repr

variable {S : Type} [DecidableEq S]

def totWithdrawals (withdrawals : List (Row S)) : List (GroupSum S) :=
  groupBySum Row.account Row.amount withdrawals

def totDeposits (deposits : List (Row S)) : List (GroupSum S) :=
  groupBySum Row.account Row.amount deposits

/-! ## Q1 and Q2 -/

def q1 (withdrawals : List (Row S)) : List (GroupSum S) := totWithdrawals withdrawals

/-- `agg(max(col("sum(amount)"))).first().getLong(0)` throws if the maximum is null. -/
def q2 (withdrawals : List (Row S)) : Option (List (Option S)) :=
  (maxOf ((totWithdrawals withdrawals).map GroupSum.sum)).map fun maximum =>
    (filter (fun row => equalTo row.sum (some maximum))
      (totWithdrawals withdrawals)).map GroupSum.key

/-! ## Q3 and Q4

A column of a row that the join did not find is null. -/

def sameAccount (withdrawn deposited : GroupSum S) : Option Bool :=
  equalTo deposited.key withdrawn.key

def q3 (deposits withdrawals : List (Row S)) : List (Option S) :=
  let joined := leftOuterJoin sameAccount (totWithdrawals withdrawals) (totDeposits deposits)
  let negativeBalance := filter (fun (withdrawn, deposited) =>
    or (isNull (deposited.bind GroupSum.key))
      (gt withdrawn.sum (deposited.bind GroupSum.sum))) joined
  negativeBalance.map fun (withdrawn, _) => withdrawn.key

/-- `when(account.isNull(), 0).otherwise(sum)`, for one side of the join. -/
def sumOrZero (side : Option (GroupSum S)) : Option Int :=
  if (side.bind GroupSum.key).isNone then some 0 else side.bind GroupSum.sum

/-- The account of the deposit, or else of the withdrawal. -/
def valueAccount (withdrawn deposited : Option (GroupSum S)) : Balance S where
  account :=
    if (deposited.bind GroupSum.key).isNone then withdrawn.bind GroupSum.key
    else deposited.bind GroupSum.key
  balance := minus (sumOrZero deposited) (sumOrZero withdrawn)

def q4 (deposits withdrawals : List (Row S)) : List (Balance S) :=
  let joined := fullOuterJoin sameAccount (totWithdrawals withdrawals) (totDeposits deposits)
  orderByDesc Balance.balance (joined.map fun (withdrawn, deposited) =>
    valueAccount withdrawn deposited)

/-! ## The tutorial -/

namespace Tutorial

def sumWithdrawals (withdrawals : List (Row S)) : List (GroupSum S) :=
  groupBySum Row.person Row.amount withdrawals

def q1 (withdrawals : List (Row S)) : List (GroupSum S) := sumWithdrawals withdrawals

def q2 (withdrawals : List (Row S)) : Option (List (GroupSum S)) :=
  (maxOf ((sumWithdrawals withdrawals).map GroupSum.sum)).map fun maxTotal =>
    filter (fun row => equalTo row.sum (some maxTotal)) (sumWithdrawals withdrawals)

/-- `isNull().and(gt(0)).or(gt(...))`, of the sums of both sides of the join. -/
def negative (withdrawn : GroupSum S) (deposited : Option (GroupSum S)) : Option Bool :=
  or (and (isNull (deposited.bind GroupSum.sum)) (gt withdrawn.sum (some 0)))
    (gt withdrawn.sum (deposited.bind GroupSum.sum))

def q3 (deposits withdrawals : List (Row S)) : List (Option S) :=
  let joined := leftOuterJoin sameAccount (totWithdrawals withdrawals) (totDeposits deposits)
  let negativeAccounts := filter (fun (withdrawn, deposited) => negative withdrawn deposited) joined
  negativeAccounts.map fun (withdrawn, _) => withdrawn.key

end Tutorial

end Nsds.Bank
