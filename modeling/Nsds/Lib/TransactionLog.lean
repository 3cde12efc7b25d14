import Mathlib.Data.List.Basic

/-!
# Logs of transactions

A log has the records of transactions, and a marker for each transaction that has ended. A reader
that is to see committed records only stops at the first record whose transaction is still open.
What it has read before stays as it is, whatever comes later.
-/

namespace TransactionLog

variable {τ α : Type}

/-- A record of a transaction, or the marker that ends one. -/
inductive Entry (τ α : Type) where
  | record (txn : τ) (value : α)
  | marker (txn : τ) (commit : Bool)
deriving DecidableEq, Repr

def Entry.value : Entry τ α → Option α
  | .record _ value => some value
  | .marker _ _ => none

variable [DecidableEq τ]

def Entry.ends (txn : τ) : Entry τ α → Option Bool
  | .record _ _ => none
  | .marker txn' commit => if txn' = txn then some commit else none

/-- Whether a transaction was committed, once it has ended. -/
def outcome (log : List (Entry τ α)) (txn : τ) : Option Bool := log.findSome? (Entry.ends txn)

def Entry.isOpen (log : List (Entry τ α)) : Entry τ α → Bool
  | .record txn _ => (outcome log txn).isNone
  | .marker _ _ => false

/-- The value of a record whose transaction was committed. -/
def Entry.committed (log : List (Entry τ α)) : Entry τ α → Option α
  | .record txn value => if outcome log txn = some true then some value else none
  | .marker _ _ => none

/-- The offset of the first record whose transaction is open. -/
def lastStable (log : List (Entry τ α)) : Nat := log.findIdx (Entry.isOpen log)

/-- `isolation.level` of a consumer. -/
inductive Isolation where
  | readUncommitted
  | readCommitted
deriving DecidableEq, Repr

/-- How far a reader may go. -/
def Isolation.limit : Isolation → List (Entry τ α) → Nat
  | .readUncommitted, log => log.length
  | .readCommitted, log => lastStable log

/-- The value that a reader of the log sees of an entry. -/
def Isolation.sees (isolation : Isolation) (log : List (Entry τ α)) (entry : Entry τ α) :
    Option α :=
  match isolation with
  | .readUncommitted => entry.value
  | .readCommitted => entry.committed log

/-- What a reader sees from `lo` on and before `hi`. -/
def Isolation.read (isolation : Isolation) (log : List (Entry τ α)) (lo hi : Nat) : List α :=
  ((log.take hi).drop lo).filterMap (isolation.sees log)

variable {isolation : Isolation} {log more : List (Entry τ α)} {lo mid hi : Nat} {txn : τ}
  {entry : Entry τ α}

theorem outcome_append {commit : Bool} (h : outcome log txn = some commit) :
    outcome (log ++ more) txn = some commit := by
  unfold outcome at h ⊢
  rw [List.findSome?_append, h]
  rfl

theorem outcome_marker {commit : Bool} (h : outcome log txn = some commit) :
    .marker txn commit ∈ log := by
  obtain ⟨entry, hmem, hends⟩ := List.exists_of_findSome?_eq_some h
  cases entry with
  | record => simp [Entry.ends] at hends
  | marker txn' commit' =>
    simp only [Entry.ends, Option.ite_none_right_eq_some, Option.some.injEq] at hends
    obtain ⟨rfl, rfl⟩ := hends
    exact hmem

theorem isOpen_of_append (h : entry.isOpen (log ++ more) = true) : entry.isOpen log = true := by
  cases entry with
  | marker => exact h
  | record txn value =>
    unfold Entry.isOpen at h ⊢
    rw [Option.isNone_iff_eq_none] at h ⊢
    cases houtcome : outcome log txn with
    | none => rfl
    | some commit =>
      rw [outcome_append houtcome] at h
      cases h

theorem lastStable_le_length (log : List (Entry τ α)) : lastStable log ≤ log.length :=
  List.findIdx_le_length

theorem lastStable_le_append : lastStable log ≤ lastStable (log ++ more) := by
  refine Nat.le_trans ((List.prefix_append log more).findIdx_le) ?_
  exact List.findIdx_le_findIdx fun _ _ => isOpen_of_append

theorem Isolation.limit_le_length (isolation : Isolation) (log : List (Entry τ α)) :
    isolation.limit log ≤ log.length := by
  cases isolation with
  | readUncommitted => exact Nat.le_refl _
  | readCommitted => exact lastStable_le_length log

theorem Isolation.limit_le_append : isolation.limit log ≤ isolation.limit (log ++ more) := by
  cases isolation with
  | readUncommitted => simp [limit]
  | readCommitted => exact lastStable_le_append

theorem Isolation.sees_append (h : entry ∈ log.take (isolation.limit log)) :
    isolation.sees (log ++ more) entry = isolation.sees log entry := by
  cases isolation with
  | readUncommitted => rfl
  | readCommitted =>
    obtain ⟨i, hi, rfl⟩ := List.getElem_of_mem h
    rw [List.length_take] at hi
    have hclosed := List.not_of_lt_findIdx (Nat.lt_of_lt_of_le hi (Nat.min_le_left _ _))
    rw [List.getElem_take]
    unfold sees
    cases hentry : log[i] with
    | marker => rfl
    | record txn value =>
      rw [hentry] at hclosed
      obtain ⟨commit, hcommit⟩ : ∃ commit, outcome log txn = some commit := by
        rw [← Option.isSome_iff_exists]
        simpa [Entry.isOpen] using hclosed
      simp [Entry.committed, hcommit, outcome_append hcommit]

theorem Isolation.read_append (h : hi ≤ isolation.limit log) :
    isolation.read (log ++ more) lo hi = isolation.read log lo hi := by
  unfold read
  rw [List.take_append_of_le_length (Nat.le_trans h (isolation.limit_le_length log))]
  refine List.filterMap_congr fun entry hentry => sees_append ?_
  have htake : log.take hi <+: log.take (isolation.limit log) := List.take_prefix_take_left h
  exact htake.subset (List.mem_of_mem_drop hentry)

theorem Isolation.read_split (hlo : lo ≤ mid) (hhi : mid ≤ hi) :
    isolation.read log lo hi = isolation.read log lo mid ++ isolation.read log mid hi := by
  unfold read
  rw [← List.filterMap_append]
  congr 1
  have hmid : (log.take mid).drop lo = ((log.take hi).drop lo).take (mid - lo) := by
    rw [← List.drop_take, List.take_take, Nat.min_eq_left hhi]
  have hdrop : (log.take hi).drop mid = ((log.take hi).drop lo).drop (mid - lo) := by
    rw [List.drop_drop, Nat.add_sub_cancel' hlo]
  rw [hmid, hdrop, List.take_append_drop]

@[simp] theorem Isolation.read_self : isolation.read log lo lo = [] := by
  unfold read
  rw [List.drop_eq_nil_of_le (List.length_take_le _ _), List.filterMap_nil]

theorem Isolation.mem_read {value : α} (h : value ∈ isolation.read log lo hi) :
    ∃ txn, .record txn value ∈ log ∧
      (isolation = .readCommitted → .marker txn true ∈ log) := by
  obtain ⟨entry, hmem, hsees⟩ := List.mem_filterMap.mp h
  have hlog := List.mem_of_mem_take (List.mem_of_mem_drop hmem)
  cases isolation with
  | readUncommitted =>
    cases entry <;> simp_all [sees, Entry.value]
    exact ⟨_, hlog⟩
  | readCommitted =>
    cases entry with
    | marker => simp [sees, Entry.committed] at hsees
    | record txn value' =>
      simp only [sees, Entry.committed, Option.ite_none_right_eq_some, Option.some.injEq] at hsees
      obtain ⟨hcommit, rfl⟩ := hsees
      exact ⟨txn, hlog, fun _ => outcome_marker hcommit⟩

end TransactionLog
