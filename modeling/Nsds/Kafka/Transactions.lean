import Nsds.Kafka.Records
import Nsds.Lib.CrashLoop

/-!
# Read, process and write in transactions

The transactional producer as its documentation has it, and a loop that polls a
topic and hands the records to a body of producer calls. Exactly once means that
the output is the image of what is below the committed offsets.
-/

namespace Nsds.Kafka

open OffsetLog CrashLoop

variable {P K V O : Type}

/-- Everything that a transaction makes visible at once. -/
structure Transaction (P R O : Type) where
  sent : List (R × O)
  offsets : P → Option Nat

/-- The brokers, and the position of the consumer. A record of the output topic stands
beside the input record that it was sent for. -/
structure Service (P R O : Type) where
  committed : P → Nat
  output : List (R × O)
  pending : Option (Transaction P R O)
  position : P → Nat

/-- A call of the loop body. `fail` is code between two calls that throws. -/
inductive Call (P R O : Type) where
  | beginTransaction
  | send (source : R) (out : O)
  | sendOffsetsToTransaction (map : P → Option Nat)
  | commitTransaction
  | fail

/-- `none` is an exception: a transaction inside another, or a call outside of one. -/
def Service.call {R : Type} (s : Service P R O) : Call P R O → Option (Service P R O)
  | .beginTransaction =>
    match s.pending with
    | none => some { s with pending := some { sent := [], offsets := fun _ => none } }
    | some _ => none
  | .send source out =>
    s.pending.map fun t => { s with pending := some { t with sent := t.sent ++ [(source, out)] } }
  | .sendOffsetsToTransaction map =>
    s.pending.map fun t =>
      { s with pending := some { t with offsets := fun p => (map p).or (t.offsets p) } }
  | .commitTransaction =>
    s.pending.map fun t =>
      { s with
        committed := fun p => (t.offsets p).getD (s.committed p)
        output := s.output ++ t.sent
        pending := none }
  | .fail => none

/-- `initTransactions` aborts what a crash left open, and a new consumer starts at the
committed offsets. -/
def Service.restart {R : Type} (s : Service P R O) : Service P R O :=
  { s with pending := none, position := s.committed }

/-- A crash loses the transaction that is open, and the position. -/
def transactionalLoop (topic : Topic P K V)
    (body : ConsumerRecords P K V → List (Call P (ConsumerRecord P K V) O)) :
    Loop (Service P (ConsumerRecord P K V) O) (Call P (ConsumerRecord P K V) O)
      (ConsumerRecords P K V) Unit where
  call := Service.call
  restart := Service.restart
  input s records s' :=
    Fetched topic s.position records ∧ s' = { s with position := advance s.position records }
  fresh := ()
  body _ records := (body records, ())

/-- The group starts at `initial`, and the output topic is empty. -/
def Starts {R : Type} (initial : P → Nat) (s : Service P R O) : Prop :=
  s.committed = initial ∧ s.output = []

variable [DecidableEq P]

/-- The output is the image of the records from `initial` up to the committed offsets,
each once, and those of one partition in their order. Where `image` has no value, the
record cannot be below the committed offset. -/
def ExactlyOnce (topic : Topic P K V) (image : ConsumerRecord P K V → Option O) (initial : P → Nat)
    (s : Service P (ConsumerRecord P K V) O) : Prop :=
  ∀ p, initial p ≤ s.committed p ∧
    (s.output.filter fun e => e.1.partition = p).map (fun e => (e.1, some e.2)) =
      (range ConsumerRecord.offset (initial p) (s.committed p) (topic.log p)).map
        fun r => (r, image r)

variable {topic : Topic P K V} {image : ConsumerRecord P K V → Option O} {initial : P → Nat}
  {s : Service P (ConsumerRecord P K V) O}

theorem Starts.exactlyOnce (h : Starts initial s) : ExactlyOnce topic image initial s := by
  intro p
  rw [h.1, h.2]
  simp

theorem ExactlyOnce.commit (h : ExactlyOnce topic image initial s)
    {records : ConsumerRecords P K V} (hf : Fetched topic s.committed records)
    {sent : List (ConsumerRecord P K V × O)}
    (hsent : sent.map (fun e => (e.1, some e.2)) = records.all.map fun r => (r, image r)) :
    ExactlyOnce topic image initial { s with
      committed := advance s.committed records
      output := s.output ++ sent
      pending := none } := by
  intro p
  obtain ⟨hle, heq⟩ := h p
  have hadv := hf.le_advance p
  refine ⟨Nat.le_trans hle hadv, ?_⟩
  have hpart : (sent.filter fun e => e.1.partition = p).map (fun e => (e.1, some e.2)) =
      (records.records p).map fun r => (r, image r) := by
    have := congrArg (List.filter fun e => e.1.partition = p) hsent
    rw [List.filter_map, List.filter_map] at this
    rw [← hf.filter_all p]
    exact this
  rw [List.filter_append, List.map_append, heq, hpart,
    (topic.increasing p).range_append hle hadv, hf.range_advance p, List.map_append]

theorem ExactlyOnce.sources (h : ExactlyOnce topic image initial s) (p : P) :
    (s.output.map Prod.fst).filter (fun r => r.partition = p) =
      range ConsumerRecord.offset (initial p) (s.committed p) (topic.log p) := by
  have := congrArg (List.map Prod.fst) (h p).2
  rw [List.map_map, List.map_map] at this
  rw [List.filter_map]
  simpa [Function.comp_def] using this

theorem ExactlyOnce.nodup (h : ExactlyOnce topic image initial s) :
    (s.output.map Prod.fst).Nodup := by
  apply nodup_of_filter_nodup ConsumerRecord.partition
  intro p
  rw [h.sources p]
  exact (topic.increasing p).range.nodup

theorem ExactlyOnce.mem_iff (h : ExactlyOnce topic image initial s) (r : ConsumerRecord P K V) :
    r ∈ s.output.map Prod.fst ↔ r ∈ topic.log r.partition ∧
      initial r.partition ≤ r.offset ∧ r.offset < s.committed r.partition := by
  rw [← mem_range, ← h.sources r.partition]
  simp

end Nsds.Kafka
