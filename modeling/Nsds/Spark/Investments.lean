import Nsds.Lib.Lineage
import Nsds.Lib.Lockstep

/-!
# `InvestmentSimulator.java`, `InvestmentSimulatorUnpersist.java`

Amounts and rates are doubles, of which nothing is assumed: `grow` is what the map does to an
investment, `sumAmount` the sum of the amounts, and `below` the comparison with the threshold.
There is memory for everything that is to be kept.
-/

namespace Nsds.Investments

open Lineage Lockstep

/-- The variables of the loop, and what Spark keeps. -/
structure Loop (α σ : Type) where
  iteration : Nat
  sum : σ
  store : Store α

variable {α σ : Type} (textFile : List α) (grow : α → α) (sumAmount : List α → σ)
  (below : σ → Bool)

/-! ## `InvestmentSimulator.java` -/

def simulatorStart : Loop α σ :=
  let (store, investments) := compute textFile grow 0 Store.start
  { iteration := 0, sum := sumAmount investments, store }

def simulatorNext (useCache : Bool) (loop : Loop α σ) : Option (Loop α σ) :=
  if below loop.sum then
    let iteration := loop.iteration + 1
    let store := if useCache then loop.store.cache iteration else loop.store
    let (store, investments) := compute textFile grow iteration store
    some { iteration, sum := sumAmount investments, store }
  else none

/-! ## `InvestmentSimulatorUnpersist.java` -/

def unpersistStart : Loop α σ :=
  let (store, investments) := compute textFile grow 0 (Store.start.cache 0)
  { iteration := 0, sum := sumAmount investments, store }

def unpersistNext (loop : Loop α σ) : Option (Loop α σ) :=
  if below loop.sum then
    let iteration := loop.iteration + 1
    let store := loop.store.cache iteration
    let (store, investments) := compute textFile grow iteration store
    -- after the action: the old investments are not needed any more
    let store := store.unpersist loop.iteration
    some { iteration, sum := sumAmount investments, store }
  else none

/-! ## One iteration -/

/-- Nothing is kept. -/
def plain (n : Nat) : Loop α σ where
  iteration := n
  sum := sumAmount (rows textFile grow n)
  store := ⟨fun _ => false, fun _ => none, textFile.length * ((n + 1) * n / 2)⟩

/-- All datasets but the source are kept. -/
def cached (n : Nat) : Loop α σ where
  iteration := n
  sum := sumAmount (rows textFile grow n)
  store := {
    kept := fun m => decide (0 < m ∧ m ≤ n)
    stored := fun m => if 0 < m ∧ m ≤ n then some (rows textFile grow m) else none
    invocations := textFile.length * n }

/-- Only the newest dataset is kept. -/
def newest (n : Nat) : Loop α σ where
  iteration := n
  sum := sumAmount (rows textFile grow n)
  store := {
    kept := fun m => decide (m = n)
    stored := fun m => if m = n then some (rows textFile grow m) else none
    invocations := textFile.length * n }

theorem triangle_succ (n : Nat) : (n + 2) * (n + 1) / 2 = (n + 1) * n / 2 + (n + 1) := by
  have hsplit : (n + 2) * (n + 1) = (n + 1) * n + (n + 1) * 2 := by
    rw [← Nat.mul_add, Nat.mul_comm]
  rw [hsplit, Nat.add_mul_div_right _ _ (by decide)]

theorem simulatorNext_plain (n : Nat) :
    simulatorNext textFile grow sumAmount below false (plain textFile grow sumAmount n) =
      if below (sumAmount (rows textFile grow n)) then some (plain textFile grow sumAmount (n + 1))
      else none := by
  unfold simulatorNext plain
  simp only [Bool.false_eq_true, if_false, compute_of_not_kept, ← Nat.mul_add, triangle_succ]

theorem cached_update (n : Nat) :
    Function.update (fun m => decide (0 < m ∧ m ≤ n)) (n + 1) true =
      fun m => decide (0 < m ∧ m ≤ n + 1) := by
  funext m
  rcases eq_or_ne m (n + 1) with rfl | hm
  · simp
  · rw [Function.update_of_ne hm, decide_eq_decide]
    omega

theorem simulatorNext_cached (n : Nat) :
    simulatorNext textFile grow sumAmount below true (cached textFile grow sumAmount n) =
      if below (sumAmount (rows textFile grow n)) then some (cached textFile grow sumAmount (n + 1))
      else none := by
  have hstored : Function.update
      (fun m => if 0 < m ∧ m ≤ n then some (rows textFile grow m) else none) (n + 1)
      (some (rows textFile grow (n + 1))) =
      fun m => if 0 < m ∧ m ≤ n + 1 then some (rows textFile grow m) else none := by
    funext m
    rcases eq_or_ne m (n + 1) with rfl | hm
    · simp
    · have hiff : (0 < m ∧ m ≤ n) ↔ (0 < m ∧ m ≤ n + 1) := by omega
      rw [Function.update_of_ne hm]
      simp only [hiff]
  have hrows : compute textFile grow n ((cached textFile grow sumAmount n).store.cache (n + 1)) =
      ((cached textFile grow sumAmount n).store.cache (n + 1), rows textFile grow n) := by
    rcases n with _ | n
    · simp [compute, cached, Store.cache, Store.computed, rows]
    · exact compute_stored (by simp [cached, Store.cache])
  have hcompute : compute textFile grow (n + 1)
      ((cached textFile grow sumAmount n).store.cache (n + 1)) =
      ((cached textFile grow sumAmount (n + 1)).store, rows textFile grow (n + 1)) := by
    rw [compute_succ hrows (by simp [cached, Store.cache]),
      Store.computed_kept (by simp [cached, Store.cache])]
    simp only [cached, Store.cache, hstored, cached_update, Nat.mul_succ]
  have hnext : (cached textFile grow sumAmount n).iteration = n := rfl
  unfold simulatorNext
  simp only [if_true, hnext, hcompute]
  rfl

theorem unpersistNext_newest (n : Nat) :
    unpersistNext textFile grow sumAmount below (newest textFile grow sumAmount n) =
      if below (sumAmount (rows textFile grow n)) then some (newest textFile grow sumAmount (n + 1))
      else none := by
  have hrows : compute textFile grow n ((newest textFile grow sumAmount n).store.cache (n + 1)) =
      ((newest textFile grow sumAmount n).store.cache (n + 1), rows textFile grow n) :=
    compute_stored (by simp [newest, Store.cache])
  have hcompute := compute_succ hrows (by simp [newest, Store.cache])
  rw [Store.computed_kept (by simp [newest, Store.cache])] at hcompute
  have hnext : (newest textFile grow sumAmount n).iteration = n := rfl
  have hkept : Function.update (Function.update (fun m => decide (m = n)) (n + 1) true) n false =
      fun m => decide (m = n + 1) := by
    funext m
    rcases eq_or_ne m n with rfl | hm
    · simp
    · rcases eq_or_ne m (n + 1) with rfl | hm'
      · simp
      · simp [hm, hm']
  have hstored : Function.update (Function.update
      (fun m => if m = n then some (rows textFile grow m) else none) (n + 1)
      (some (rows textFile grow (n + 1)))) n none =
      fun m => if m = n + 1 then some (rows textFile grow m) else none := by
    funext m
    rcases eq_or_ne m n with rfl | hm
    · simp
    · rcases eq_or_ne m (n + 1) with rfl | hm'
      · simp
      · simp [hm, hm']
  unfold unpersistNext
  simp only [hnext, hcompute]
  simp only [newest, Store.cache, Store.unpersist, hkept, hstored, Nat.mul_succ]

/-! ## Whole runs -/

theorem simulatorStart_eq : simulatorStart textFile grow sumAmount =
    plain textFile grow sumAmount 0 ∧ simulatorStart textFile grow sumAmount =
      cached textFile grow sumAmount 0 := by
  have hkept : (fun _ => false : Nat → Bool) = fun m => decide (0 < m ∧ m ≤ 0) := by
    funext m
    rw [eq_comm, decide_eq_false_iff_not]
    omega
  have hstored : (fun _ => none : Nat → Option (List α)) = fun m =>
      if 0 < m ∧ m ≤ 0 then some (rows textFile grow m) else none := by
    funext m
    rw [if_neg (by omega)]
  have hstart : simulatorStart textFile grow sumAmount = plain textFile grow sumAmount 0 := by
    simp [simulatorStart, compute, Store.start, Store.computed, plain, rows]
  refine ⟨hstart, ?_⟩
  rw [hstart]
  simp only [plain, cached, ← hkept, ← hstored]

theorem unpersistStart_eq :
    unpersistStart textFile grow sumAmount = newest textFile grow sumAmount 0 := by
  have hkept : Function.update (fun _ => false) 0 true = fun m => decide (m = 0) := by
    funext m
    rcases eq_or_ne m 0 with rfl | hm
    · simp
    · simp [hm]
  have hstored : Function.update (fun _ => none) 0 (some textFile) = fun m =>
      if m = 0 then some (rows textFile grow m) else none := by
    funext m
    rcases eq_or_ne m 0 with rfl | hm
    · simp [rows]
    · simp [hm]
  simp [unpersistStart, compute, Store.start, Store.cache, Store.computed, newest, hkept, hstored,
    rows]

/-- After `n` iterations the three loops have stopped, or go on with the same sum. Without a cache
the map was called for each of `1 + ... + n` datasets, with one for each of `n`. The caches that
are not unpersisted stay, and otherwise there is only the newest. -/
def Agree (n : Nat) (plain cached unpersist : Option (Loop α σ)) : Prop :=
  (plain = none ∧ cached = none ∧ unpersist = none) ∨
    ∃ x y z, plain = some x ∧ cached = some y ∧ unpersist = some z ∧
      (x.iteration = n ∧ y.iteration = n ∧ z.iteration = n) ∧ (x.sum = y.sum ∧ y.sum = z.sum) ∧
      x.store.invocations = textFile.length * ((n + 1) * n / 2) ∧
      y.store.invocations = textFile.length * n ∧ z.store.invocations = textFile.length * n ∧
      (∀ m, (y.store.stored m).isSome ↔ 0 < m ∧ m ≤ n) ∧
      (∀ m, (z.store.stored m).isSome ↔ m = n)

theorem simulators_agree (n : Nat) :
    Agree textFile n
      (after (simulatorNext textFile grow sumAmount below false)
        (some (simulatorStart textFile grow sumAmount)) n)
      (after (simulatorNext textFile grow sumAmount below true)
        (some (simulatorStart textFile grow sumAmount)) n)
      (after (unpersistNext textFile grow sumAmount below)
        (some (unpersistStart textFile grow sumAmount)) n) := by
  have ha := after_of_next (simulatorNext_plain textFile grow sumAmount below) n
  have hb := after_of_next (simulatorNext_cached textFile grow sumAmount below) n
  have hc := after_of_next (unpersistNext_newest textFile grow sumAmount below) n
  obtain ⟨hplain, hcached⟩ := simulatorStart_eq textFile grow sumAmount
  rw [← hplain] at ha
  rw [← hcached] at hb
  rw [← unpersistStart_eq] at hc
  by_cases hall : ∀ m < n, below (sumAmount (rows textFile grow m)) = true
  · rw [if_pos hall] at ha hb hc
    refine .inr ⟨_, _, _, ha, hb, hc, ⟨rfl, rfl, rfl⟩, ⟨rfl, rfl⟩, rfl, rfl, rfl, ?_, ?_⟩
    · intro m
      simp only [cached]
      split <;> simp_all
    · intro m
      simp only [newest]
      split <;> simp_all
  · rw [if_neg hall] at ha hb hc
    exact .inl ⟨ha, hb, hc⟩

end Nsds.Investments
