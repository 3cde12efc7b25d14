import Nsds.Kafka.Transactions

/-!
# `atomic_forward/AtomicForwarder.java`

One transaction for every poll: the records, and the offsets behind them.
-/

namespace Nsds.Kafka.AtomicForwarder

open OffsetLog CrashLoop Transition

structure ProducerRecord (K V : Type) where
  key : K
  value : V
deriving DecidableEq, Repr

variable {P K V : Type} [DecidableEq P]

/-- One transaction for the whole batch. -/
def body (records : ConsumerRecords P K V) :
    List (Call P (ConsumerRecord P K V) (ProducerRecord K V)) :=
  .beginTransaction ::
    (records.all.flatMap fun record => [.send record ⟨record.key, record.value⟩]) ++
    [.sendOffsetsToTransaction records.offsets, .commitTransaction]

def system (inputTopic : Topic P K V) (initial : P → Nat) :
    System (State (Service P (ConsumerRecord P K V) (ProducerRecord K V))
      (Call P (ConsumerRecord P K V) (ProducerRecord K V)) Unit) (Action (ConsumerRecords P K V)) :=
  (transactionalLoop inputTopic body).system (Starts initial)

/-- A record as it is sent on. -/
def forwarded (record : ConsumerRecord P K V) : ProducerRecord K V := ⟨record.key, record.value⟩

variable {inputTopic : Topic P K V} {initial : P → Nat}
  {s : Service P (ConsumerRecord P K V) (ProducerRecord K V)} {records : ConsumerRecords P K V}

/-- After the poll of `records`, once the records `done` were sent. -/
def during (s : Service P (ConsumerRecord P K V) (ProducerRecord K V))
    (records : ConsumerRecords P K V) (done : List (ConsumerRecord P K V)) :
    Service P (ConsumerRecord P K V) (ProducerRecord K V) :=
  { s with
    pending := some { sent := done.map fun r => (r, forwarded r), offsets := fun _ => none }
    position := advance s.committed records }

/-- Exactly once, for records that are forwarded as they are. -/
abbrev InStep (inputTopic : Topic P K V) (initial : P → Nat) :
    Service P (ConsumerRecord P K V) (ProducerRecord K V) → Prop :=
  ExactlyOnce inputTopic (fun r => some (forwarded r)) initial

theorem sends_safe (hs : InStep inputTopic initial s) :
    Calls Service.call (InStep inputTopic initial) (fun s' => s' = during s records records.all)
      (records.all.flatMap fun record => [.send record ⟨record.key, record.value⟩])
      (during s records []) := by
  refine Calls.flatMap (fun done s' => s' = during s records done) ?_ [] records.all rfl
  rintro done r _ rfl s' h
  simp only [Service.call, during, Option.map_some, Option.some.injEq] at h
  subst h
  exact ⟨hs, by simp [Calls, during, forwarded]⟩

theorem body_safe (hs : InStep inputTopic initial s) (hf : Fetched inputTopic s.committed records) :
    Calls Service.call (InStep inputTopic initial) (fun s => s.position = s.committed)
      (body records) { s with position := advance s.committed records } := by
  intro s1 h1
  simp only [Service.call] at h1
  split at h1
  case h_2 => cases h1
  cases h1
  refine ⟨hs, Calls.append ((sends_safe hs).mono ?_)⟩
  rintro _ rfl s2 h2
  simp only [Service.call, during, Option.map_some, Option.some.injEq] at h2
  subst h2
  refine ⟨hs, fun s3 h3 => ?_⟩
  simp only [Service.call, Option.map_some, Option.some.injEq, Option.or_none, offsets_getD] at h3
  subst h3
  exact ⟨hs.commit hf (by simp), rfl⟩

theorem loop_safe (inputTopic : Topic P K V) (initial : P → Nat) :
    Safe (transactionalLoop inputTopic body) (fun _ _ _ => True) (InStep inputTopic initial)
      (fun _ s => s.position = s.committed) where
  restart s hs := ⟨hs, rfl⟩
  input := by
    rintro _ s records s' hs hidle ⟨hf, rfl⟩ _
    rw [hidle] at hf ⊢
    exact ⟨hs, body_safe hs hf⟩

/-- At any time, with any crashes so far, the output consists of what was forwarded for
the input records below the committed offsets: each of them once, with its key and
value, and the records of a partition in their order. -/
theorem forward_exactly_once
    {s : State (Service P (ConsumerRecord P K V) (ProducerRecord K V))
      (Call P (ConsumerRecord P K V) (ProducerRecord K V)) Unit}
    (h : (system inputTopic initial).Reachable s) :
    (∀ p, initial p ≤ s.service.committed p ∧
      (s.service.output.filter fun e => e.1.partition = p) =
        (range ConsumerRecord.offset (initial p) (s.service.committed p) (inputTopic.log p)).map
          fun r => (r, ⟨r.key, r.value⟩)) ∧
    (s.service.output.map Prod.fst).Nodup ∧
    ∀ r, r ∈ s.service.output.map Prod.fst ↔ r ∈ inputTopic.log r.partition ∧
      initial r.partition ≤ r.offset ∧ r.offset < s.service.committed r.partition := by
  have hs := ((loop_safe inputTopic initial).reachable (fun _ h => h.exactlyOnce) h).1
  refine ⟨fun p => ⟨(hs p).1, ?_⟩, hs.nodup, hs.mem_iff⟩
  have hinj : Function.Injective fun e : ConsumerRecord P K V × ProducerRecord K V =>
      (e.1, some e.2) := by
    rintro ⟨r, o⟩ ⟨r', o'⟩ he
    simpa using he
  apply List.map_injective_iff.mpr hinj
  rw [(hs p).2, List.map_map]
  rfl

def twoPartitions : Topic Bool Nat Nat where
  log
    | false => [⟨false, 0, 1, 10⟩, ⟨false, 1, 1, 11⟩]
    | true => [⟨true, 5, 2, 20⟩]
  increasing p := by cases p <;> simp [Increasing]
  partition p := by cases p <;> simp

def allRecords : ConsumerRecords Bool Nat Nat where
  partitions := [true, false]
  records := twoPartitions.log
  nodup := by decide
  mem_partitions p := by cases p <;> simp [twoPartitions]

theorem forward_exactly_once_three :
    ∃ t : State (Service Bool (ConsumerRecord Bool Nat Nat) (ProducerRecord Nat Nat))
        (Call Bool (ConsumerRecord Bool Nat Nat) (ProducerRecord Nat Nat)) Unit,
      t.service.output.map Prod.snd = [⟨2, 20⟩, ⟨1, 10⟩, ⟨1, 11⟩] ∧ t.service.committed true = 6 ∧
      (t.service.output.map Prod.fst).Nodup := by
  have hstart : (system twoPartitions fun _ => 0).Reachable
      ⟨⟨fun _ => 0, [], none, fun _ => 0⟩, none⟩ := .start ⟨⟨rfl, rfl⟩, rfl⟩
  have hf : Fetched twoPartitions (fun _ => 0) allRecords := by
    intro p
    simp [allRecords, since]
  have hpolled := reachable_input (reachable_restart (reachable_runs hstart))
    (show (transactionalLoop twoPartitions body).input _ allRecords _ from ⟨hf, rfl⟩) trivial
  have hdone := reachable_calls (body allRecords) (by rw [List.append_nil]; exact hpolled) rfl
  exact ⟨_, rfl, rfl, (forward_exactly_once hdone.of_restrict).2.1⟩

end Nsds.Kafka.AtomicForwarder
