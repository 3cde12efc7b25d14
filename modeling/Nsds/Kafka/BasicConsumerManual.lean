import Mathlib.Data.List.Nodup
import Nsds.Kafka.Records
import Nsds.Lib.CrashLoop

/-!
# `basic/BasicConsumerManual.java`

Print every record, and commit after every hundredth. The commit takes the
position of the consumer, which is behind the whole batch, and the rest of the
batch may not be printed yet.
-/

namespace Nsds.Kafka.BasicConsumerManual

open OffsetLog CrashLoop Transition

def commitEvery : Nat := 100

/-- The brokers, the console, and the position of the consumer. -/
structure Service (P K V : Type) where
  committed : P → Nat
  printed : List (ConsumerRecord P K V)
  position : P → Nat

/-- The calls of the loop body. -/
inductive Call (P K V : Type) where
  | println (record : ConsumerRecord P K V)
  | commitSync

variable {P K V : Type}

/-- `commitSync()` commits the position that follows the last poll. -/
def Service.call (s : Service P K V) : Call P K V → Option (Service P K V)
  | .println record => some { s with printed := s.printed ++ [record] }
  | .commitSync => some { s with committed := s.position }

/-- The `for` loop, from a value of `numConsumed` on: its calls, and `numConsumed` after it. -/
def consume (numConsumed : Nat) : List (ConsumerRecord P K V) → List (Call P K V) × Nat
  | [] => ([], numConsumed)
  | record :: records =>
    if numConsumed + 1 = commitEvery then
      let (calls, n) := consume 0 records
      (.println record :: .commitSync :: calls, n)
    else
      let (calls, n) := consume (numConsumed + 1) records
      (.println record :: calls, n)

/-- The `while (true)` loop. The variable is `numConsumed`. -/
def loop (topic : Topic P K V) :
    Loop (Service P K V) (Call P K V) (ConsumerRecords P K V) Nat where
  call := Service.call
  restart s := { s with position := s.committed }
  input s records s' :=
    Fetched topic s.position records ∧ s' = { s with position := advance s.position records }
  fresh := 0
  body numConsumed records := consume numConsumed records.all

def Starts (initial : P → Nat) (s : Service P K V) : Prop := s.committed = initial

/-- The loop in any run, from these committed offsets on. -/
def system (topic : Topic P K V) (initial : P → Nat) :
    System (State (Service P K V) (Call P K V) Nat) (Action (ConsumerRecords P K V)) :=
  (loop topic).system (Starts initial)

/-- Every record below the offsets `upTo` is on the console. -/
def PrintedBelow (topic : Topic P K V) (initial upTo : P → Nat) (s : Service P K V) : Prop :=
  ∀ p, ∀ r ∈ topic.log p, initial p ≤ r.offset → r.offset < upTo p → r ∈ s.printed

/-- Nothing is committed before it is printed. -/
def CommittedPrinted (topic : Topic P K V) (initial : P → Nat) (s : Service P K V) : Prop :=
  PrintedBelow topic initial s.committed s

variable {topic : Topic P K V} {initial : P → Nat} {s : Service P K V}
  {records : ConsumerRecords P K V}

/-- The records of the batch that the next commit is too early for were printed before, by
a process that crashed. -/
def BatchOk (numConsumed : Nat) (s : Service P K V) (records : ConsumerRecords P K V) : Prop :=
  ∀ r ∈ records.all.drop (commitEvery - numConsumed), r ∈ s.printed

/-! ## Batches that the commits come in time for -/

/-- What is below the position was printed, except for the `rest` of the batch. -/
def During (topic : Topic P K V) (initial : P → Nat) (rest : List (ConsumerRecord P K V))
    (s : Service P K V) : Prop :=
  ∀ p, ∀ r ∈ topic.log p, initial p ≤ r.offset → r.offset < s.position p →
    r ∈ s.printed ∨ r ∈ rest

theorem During.println {record : ConsumerRecord P K V} {rest : List (ConsumerRecord P K V)}
    (h : During topic initial (record :: rest) s) :
    During topic initial rest { s with printed := s.printed ++ [record] } := by
  intro p r hr hlow hhigh
  rcases h p r hr hlow hhigh with h | h
  · exact Or.inl (List.mem_append_left _ h)
  · rcases List.mem_cons.mp h with rfl | h
    · exact Or.inl (by simp)
    · exact Or.inr h

theorem During.all {rest : List (ConsumerRecord P K V)} (h : During topic initial rest s)
    (hrest : ∀ r ∈ rest, r ∈ s.printed) : PrintedBelow topic initial s.position s :=
  fun p r hr hlow hhigh => (h p r hr hlow hhigh).elim id (hrest r)

theorem CommittedPrinted.println (h : CommittedPrinted topic initial s)
    (record : ConsumerRecord P K V) :
    CommittedPrinted topic initial { s with printed := s.printed ++ [record] } :=
  fun p r hr hlow hhigh => List.mem_append_left _ (h p r hr hlow hhigh)

theorem consume_safe (numConsumed : Nat) (rest : List (ConsumerRecord P K V))
    (hn : numConsumed < commitEvery)
    (hok : ∀ r ∈ rest.drop (commitEvery - numConsumed), r ∈ s.printed)
    (hs : CommittedPrinted topic initial s) (hd : During topic initial rest s) :
    Calls Service.call (CommittedPrinted topic initial)
      (fun s => (consume numConsumed rest).2 < commitEvery ∧
        PrintedBelow topic initial s.position s)
      (consume numConsumed rest).1 s := by
  induction rest generalizing numConsumed s with
  | nil => exact ⟨hn, hd.all fun _ h => by cases h⟩
  | cons record rest ih =>
    unfold consume
    split
    · rename_i hfull
      -- The commit comes now, and takes the rest with it.
      have hone : commitEvery - numConsumed = 1 := by omega
      rw [hone, List.drop_succ_cons, List.drop_zero] at hok
      have hrest : ∀ r ∈ rest, r ∈ s.printed ++ [record] :=
        fun r hr => List.mem_append_left _ (hok r hr)
      intro s1 h1
      cases h1
      refine ⟨hs.println record, fun s2 h2 => ?_⟩
      cases h2
      have hall := hd.println.all hrest
      exact ⟨hall, ih 0 (by decide) (fun r hr => hrest r (List.mem_of_mem_drop hr)) hall hd.println⟩
    · have hlater : commitEvery - numConsumed = commitEvery - (numConsumed + 1) + 1 := by omega
      rw [hlater, List.drop_succ_cons] at hok
      intro s1 h1
      cases h1
      exact ⟨hs.println record, ih (numConsumed + 1) (by omega)
        (fun r hr => List.mem_append_left _ (hok r hr)) (hs.println record) hd.println⟩

theorem poll_during (hs : PrintedBelow topic initial s.position s)
    (hf : Fetched topic s.position records) :
    During topic initial records.all { s with position := advance s.position records } := by
  intro p r hr hlow hhigh
  rcases Nat.lt_or_ge r.offset (s.position p) with hold | hnew
  · exact Or.inl (hs p r hr hlow hold)
  · right
    have hmem : r ∈ records.records p := by
      rw [← hf.range_advance p]
      exact mem_range.mpr ⟨hr, hnew, hhigh⟩
    exact List.mem_flatMap.mpr ⟨p, (records.mem_partitions p).mpr (List.ne_nil_of_mem hmem), hmem⟩

/-- As long as the commits come in time, every record below the committed offsets was
printed, with any crashes. -/
theorem committed_was_printed {s : State (Service P K V) (Call P K V) Nat}
    (h : ((system topic initial).restrict (InputOk BatchOk)).Reachable s) :
    CommittedPrinted topic initial s.service := by
  have hsafe : Safe (loop topic) BatchOk (CommittedPrinted topic initial)
      (fun numConsumed s =>
        numConsumed < commitEvery ∧ PrintedBelow topic initial s.position s) := by
    constructor
    · exact fun s hs => ⟨hs, by unfold loop commitEvery; simp, hs⟩
    · rintro numConsumed s records s' hs ⟨hn, hprinted⟩ ⟨hf, rfl⟩ hok
      exact ⟨hs, consume_safe numConsumed records.all hn hok hs (poll_during hprinted hf)⟩
  refine (hsafe.invariant ?_ h).1
  rintro s hs p r - hlow hhigh
  rw [hs] at hhigh
  omega

/-! ## The other batches -/

theorem consume_bounds (numConsumed : Nat) (rest : List (ConsumerRecord P K V))
    (hn : numConsumed < commitEvery) (hs : ∀ p, initial p ≤ s.committed p)
    (hp : ∀ p, initial p ≤ s.position p) :
    Calls Service.call (fun s => ∀ p, initial p ≤ s.committed p)
      (fun s => (consume numConsumed rest).2 < commitEvery ∧ ∀ p, initial p ≤ s.position p)
      (consume numConsumed rest).1 s := by
  induction rest generalizing numConsumed s with
  | nil => exact ⟨hn, hp⟩
  | cons record rest ih =>
    unfold consume
    split
    · intro s1 h1
      cases h1
      refine ⟨hs, fun s2 h2 => ?_⟩
      cases h2
      exact ⟨hp, ih 0 (by decide) hp hp⟩
    · intro s1 h1
      cases h1
      exact ⟨hs, ih (numConsumed + 1) (by omega) hs hp⟩

theorem idle_bounds {numConsumed : Nat}
    (h : (system topic initial).Reachable ⟨s, some (numConsumed, [])⟩) :
    numConsumed < commitEvery ∧ ∀ p, initial p ≤ s.position p := by
  have hsafe : Safe (loop topic) (fun _ _ _ => True) (fun s => ∀ p, initial p ≤ s.committed p)
      (fun numConsumed s => numConsumed < commitEvery ∧ ∀ p, initial p ≤ s.position p) := by
    constructor
    · exact fun s hs => ⟨hs, by unfold loop commitEvery; simp, hs⟩
    · rintro numConsumed s records s' hs ⟨hn, hp⟩ ⟨hf, rfl⟩ -
      exact ⟨hs, consume_bounds numConsumed records.all hn hs
        fun p => Nat.le_trans (hp p) (hf.le_advance p)⟩
  exact (hsafe.reachable (fun s hs p => Nat.le_of_eq (congrFun hs p).symm) h).2 numConsumed [] rfl

theorem consume_first (numConsumed : Nat) (first rest : List (ConsumerRecord P K V))
    (hne : first ≠ []) (hfull : numConsumed + first.length = commitEvery) :
    ∃ calls, (consume numConsumed (first ++ rest)).1 =
      first.map Call.println ++ [Call.commitSync] ++ calls := by
  induction first generalizing numConsumed with
  | nil => exact absurd rfl hne
  | cons record first ih =>
    rw [List.length_cons] at hfull
    rw [List.cons_append]
    unfold consume
    split
    · rename_i hnow
      have hnil : first = [] := List.eq_nil_of_length_eq_zero (by omega)
      subst hnil
      exact ⟨(consume 0 rest).1, rfl⟩
    · rename_i hlater
      have hne' : first ≠ [] := by rintro rfl; simp at hfull; exact hlater hfull
      obtain ⟨calls, hcalls⟩ := ih (numConsumed + 1) hne' (by omega)
      exact ⟨calls, by simp [hcalls]⟩

theorem println_all (first : List (ConsumerRecord P K V)) (s : Service P K V) :
    (first.map Call.println).foldlM Service.call s =
      some { s with printed := s.printed ++ first } := by
  induction first generalizing s with
  | nil => simp
  | cons record first ih =>
    rw [List.map_cons, List.foldlM_cons]
    simp [Service.call, ih]

/-- Any other batch: after its first commit, a record is committed that was never printed,
and a crash now skips it. -/
theorem late_record_skipped [DecidableEq P] {numConsumed : Nat}
    (hidle : (system topic initial).Reachable ⟨s, some (numConsumed, [])⟩)
    (hf : Fetched topic s.position records) (hbad : ¬ BatchOk numConsumed s records) :
    ∃ t, (system topic initial).Reachable t ∧ ¬ CommittedPrinted topic initial t.service := by
  unfold BatchOk at hbad
  push Not at hbad
  obtain ⟨skipped, hskipped, hnew⟩ := hbad
  obtain ⟨hn, hinit⟩ := idle_bounds hidle
  let first := records.all.take (commitEvery - numConsumed)
  let rest := records.all.drop (commitEvery - numConsumed)
  have hall : first ++ rest = records.all := List.take_append_drop _ _
  have hlength : first.length = commitEvery - numConsumed := by
    have := List.length_pos_of_mem hskipped
    rw [List.length_drop] at this
    exact List.length_take_of_le (by omega)
  have hne : first ≠ [] := List.ne_nil_of_length_pos (by omega)
  obtain ⟨calls, hcalls⟩ := consume_first numConsumed first rest hne (by omega)
  rw [hall] at hcalls
  have hpolled := reachable_input (reachable_runs hidle)
    (show (loop topic).input s records { s with position := advance s.position records } from
      ⟨hf, rfl⟩) trivial
  simp only [loop, hcalls] at hpolled
  have hcommitted := reachable_calls _ hpolled (by
    rw [List.foldlM_append, println_all]
    rfl)
  refine ⟨_, hcommitted.of_restrict, fun hC => ?_⟩
  have hmem : skipped ∈ records.all := List.mem_of_mem_drop hskipped
  obtain ⟨hlog, hlow, hhigh⟩ := hf.mem_all hmem
  have hnodup := hf.all_nodup
  rw [← hall] at hnodup
  have hprinted := hC skipped.partition skipped hlog (Nat.le_trans (hinit _) hlow) hhigh
  rcases List.mem_append.mp hprinted with hold | hfirst
  · exact hnew hold
  · exact (List.nodup_append.mp hnodup).2.2 skipped hfirst skipped hskipped rfl

/-! ## A hundred and one records in one poll -/

def manyRecords (n : Nat) : Topic Unit Unit Nat where
  log _ := (List.range n).map fun i => ⟨(), i, (), i⟩
  increasing _ := by
    simp only [Increasing, List.pairwise_map]
    exact List.pairwise_lt_range
  partition _ := by simp

def allOf (n : Nat) (hn : n ≠ 0) : ConsumerRecords Unit Unit Nat where
  partitions := [()]
  records := (manyRecords n).log
  nodup := List.nodup_singleton ()
  mem_partitions _ := by simp [manyRecords, hn]

theorem fetched_allOf (n : Nat) (hn : n ≠ 0) :
    Fetched (manyRecords n) (fun _ => 0) (allOf n hn) := by
  intro p
  simp [allOf, since]

theorem committed_not_printed :
    ∃ t, (system (manyRecords 101) fun _ => 0).Reachable t ∧
      ¬ CommittedPrinted (manyRecords 101) (fun _ => 0) t.service := by
  have hstart : (system (manyRecords 101) fun _ => 0).Reachable
      ⟨⟨fun _ => 0, [], fun _ => 0⟩, none⟩ := .start ⟨rfl, rfl⟩
  have hidle := (reachable_restart (reachable_runs hstart)).of_restrict
  refine late_record_skipped hidle (fetched_allOf 101 (by decide)) fun hok => ?_
  have hlast : (⟨(), 100, (), 100⟩ : ConsumerRecord Unit Unit Nat) ∈
      (allOf 101 (by decide)).all.drop (commitEvery - 0) := by
    have hrange : List.range 101 = List.range 100 ++ [100] := List.range_succ
    have hdrop : (List.range 101).drop 100 = [100] := by
      rw [hrange, List.drop_left' List.length_range]
    simp [ConsumerRecords.all, allOf, manyRecords, commitEvery, ← List.map_drop, hdrop]
  have hprinted := hok _ hlast
  simp [loop] at hprinted

theorem length_allOf (n : Nat) (hn : n ≠ 0) : (allOf n hn).all.length = n := by
  simp [ConsumerRecords.all, allOf, manyRecords]

theorem committed_was_printed_hundred :
    ∃ t : State (Service Unit Unit Nat) (Call Unit Unit Nat) Nat,
      t.service.committed () = 100 ∧ t.service.printed.length = 100 ∧ t.process = none ∧
      CommittedPrinted (manyRecords 100) (fun _ => 0) t.service := by
  have hstart : ((system (manyRecords 100) fun _ => 0).restrict (InputOk BatchOk)).Reachable
      ⟨⟨fun _ => 0, [], fun _ => 0⟩, none⟩ := .start ⟨rfl, rfl⟩
  have hlength := length_allOf 100 (by decide)
  have hpolled := reachable_input (reachable_restart hstart)
    (show (loop (manyRecords 100)).input _ (allOf 100 (by decide)) _ from
      ⟨fetched_allOf 100 (by decide), rfl⟩) (by
    intro r hr
    rw [List.drop_eq_nil_of_le (by rw [hlength]; exact Nat.le_refl _)] at hr
    cases hr)
  obtain ⟨calls, hcalls⟩ := consume_first 0 (allOf 100 (by decide)).all []
    (List.ne_nil_of_length_pos (by omega)) (by rw [hlength]; rfl)
  rw [List.append_nil] at hcalls
  simp only [loop, hcalls] at hpolled
  have hcommitted := reachable_calls _ hpolled (by
    rw [List.foldlM_append, println_all]
    rfl)
  have hcrashed := hcommitted.step ⟨fun _ _ _ _ ha => (by cases ha), .crash _ _⟩
  refine ⟨_, ?_, ?_, rfl, committed_was_printed hcrashed⟩
  · simp [advance, allOf, manyRecords, List.getLast?_range]
  · simp [hlength]

end Nsds.Kafka.BasicConsumerManual
