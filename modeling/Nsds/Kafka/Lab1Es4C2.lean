import Nsds.Kafka.Transactions
import Nsds.Lib.Counts
import Nsds.Lib.MachineInt

/-!
# `Lab1/ES4/C2.java`

The forwarder sends on how often every key has come. The counts are in a `KeyCounter`
that lives as long as one batch, and the first record commits the transaction of it, so that
a second one throws.
-/

namespace Nsds.Kafka.Lab1Es4C2

open CrashLoop MachineInt

variable {P K V : Type}

structure ProducerRecord (K : Type) where
  key : K
  value : Int
deriving DecidableEq, Repr

/-! ## `KeyCounter` -/

/-- The counts of a `KeyCounter`, `none` for a key that is not in the map. -/
structure KeyCounter (K : Type) where
  values : K → Option Int

def KeyCounter.new : KeyCounter K where
  values _ := none

/-- A key that is new counts from 0. -/
def KeyCounter.incrementKeyCount [DecidableEq K] (kc : KeyCounter K) (key : K) : KeyCounter K :=
  let counter := (kc.values key).getD 0
  { values := Function.update kc.values key (some (wrap 32 (counter + 1))) }

/-- `null` does not fit an `int`. -/
def KeyCounter.getKeyCount (kc : KeyCounter K) (key : K) : Option Int := kc.values key

@[simp] theorem getKeyCount_incrementKeyCount [DecidableEq K] (kc : KeyCounter K) (key : K) :
    (kc.incrementKeyCount key).getKeyCount key =
      some (wrap 32 ((kc.values key).getD 0 + 1)) := Function.update_self ..

/-! ## The loop -/

variable [DecidableEq P] [DecidableEq K]

/-- The `for` loop, from a value of `kc` on. -/
def turns (records : ConsumerRecords P K V) (kc : KeyCounter K) :
    List (ConsumerRecord P K V) → List (Call P (ConsumerRecord P K V) (ProducerRecord K))
  | [] => []
  | record :: rest =>
    let kc := kc.incrementKeyCount record.key
    match kc.getKeyCount record.key with
    | none => [.fail]
    | some count =>
      .send record ⟨record.key, count⟩ :: .sendOffsetsToTransaction records.offsets ::
        .commitTransaction :: turns records kc rest

def body (records : ConsumerRecords P K V) :
    List (Call P (ConsumerRecord P K V) (ProducerRecord K)) :=
  .beginTransaction :: turns records .new records.all

/-- After `poll`. -/
def polled (s : Service P (ConsumerRecord P K V) (ProducerRecord K))
    (records : ConsumerRecords P K V) : Service P (ConsumerRecord P K V) (ProducerRecord K) :=
  { s with position := advance s.position records }

/-- A run of the process in which `poll` returns these batches. It goes on until a call throws. -/
inductive Runs (inputTopic : Topic P K V) :
    Service P (ConsumerRecord P K V) (ProducerRecord K) → List (ConsumerRecords P K V) →
      Service P (ConsumerRecord P K V) (ProducerRecord K) → Prop where
  | nil (s : Service P (ConsumerRecord P K V) (ProducerRecord K)) : Runs inputTopic s [] s
  | cons {s t u : Service P (ConsumerRecord P K V) (ProducerRecord K)}
      {records : ConsumerRecords P K V} {batches : List (ConsumerRecords P K V)}
      (hf : Fetched inputTopic s.position records)
      (hcalls : execute Service.call (body records) (polled s records) = (t, true))
      (h : Runs inputTopic t batches u) : Runs inputTopic s (records :: batches) u
  | throws {s t : Service P (ConsumerRecord P K V) (ProducerRecord K)}
      {records : ConsumerRecords P K V} (hf : Fetched inputTopic s.position records)
      (hcalls : execute Service.call (body records) (polled s records) = (t, false)) :
      Runs inputTopic s [records] t

variable {inputTopic : Topic P K V} {s t u : Service P (ConsumerRecord P K V) (ProducerRecord K)}
  {records : ConsumerRecords P K V} {batches : List (ConsumerRecords P K V)}

theorem reachable_body {initial : P → Nat}
    (hs : ((transactionalLoop inputTopic body).system (Starts initial)).Reachable
      ⟨s, some ((), [])⟩) (hf : Fetched inputTopic s.position records) {ok : Bool}
    (hcalls : execute Service.call (body records) (polled s records) = (t, ok)) :
    ((transactionalLoop inputTopic body).system (Starts initial)).Reachable
      ⟨t, if ok then some ((), []) else none⟩ := by
  have hpolled := reachable_input (reachable_runs hs)
    (show (transactionalLoop inputTopic body).input _ _ _ from ⟨hf, rfl⟩) trivial
  have hdone := (reachable_execute hpolled).of_restrict
  change ((transactionalLoop inputTopic body).system (Starts initial)).Reachable
    ⟨(execute Service.call (body records) (polled s records)).1,
      if (execute Service.call (body records) (polled s records)).2 then some ((), []) else none⟩
    at hdone
  rwa [hcalls] at hdone

theorem Runs.reachable (h : Runs inputTopic s batches t) {initial : P → Nat}
    (hs : ((transactionalLoop inputTopic body).system (Starts initial)).Reachable
      ⟨s, some ((), [])⟩) :
    ∃ process, ((transactionalLoop inputTopic body).system (Starts initial)).Reachable
      ⟨t, process⟩ := by
  induction h with
  | nil => exact ⟨_, hs⟩
  | cons hf hcalls _ ih => exact ih (reachable_body hs hf hcalls)
  | throws hf hcalls => exact ⟨_, reachable_body hs hf hcalls⟩

/-! ## What is sent -/

theorem turns_cons (records : ConsumerRecords P K V) (kc : KeyCounter K)
    (record : ConsumerRecord P K V) (rest : List (ConsumerRecord P K V)) :
    turns records kc (record :: rest) =
      .send record ⟨record.key, wrap 32 ((kc.values record.key).getD 0 + 1)⟩ ::
        .sendOffsetsToTransaction records.offsets :: .commitTransaction ::
          turns records (kc.incrementKeyCount record.key) rest := by
  rw [turns, getKeyCount_incrementKeyCount]

theorem body_open {transaction : Transaction P (ConsumerRecord P K V) (ProducerRecord K)}
    (hopen : s.pending = some transaction) :
    execute Service.call (body records) s = (s, false) := by
  rw [body, execute, Service.call, hopen]

theorem body_empty (hnone : s.pending = none) (hall : records.all = []) :
    execute Service.call (body records) s =
      ({ s with pending := some { sent := [], offsets := fun _ => none } }, true) := by
  simp only [body, hall, turns, execute, Service.call, hnone]

theorem body_cons {record : ConsumerRecord P K V} {rest : List (ConsumerRecord P K V)}
    (hnone : s.pending = none) (hall : records.all = record :: rest) :
    execute Service.call (body records) s = ({ s with
      committed := advance s.committed records
      output := s.output ++ [(record, ⟨record.key, 1⟩)]
      pending := none }, rest.isEmpty) := by
  have hcommitted : (fun p => ((records.offsets p).or none).getD (s.committed p)) =
      advance s.committed records := by
    funext p
    rw [Option.or_none, offsets_getD]
  rw [← hcommitted, body, hall, turns_cons]
  cases rest with
  | nil =>
    simp only [turns, execute, Service.call, hnone]
    rfl
  | cons second rest =>
    rw [turns_cons]
    simp only [execute, Service.call, hnone]
    rfl

theorem body_single {record : ConsumerRecord P K V} (hnone : s.pending = none)
    (hall : records.all = [record]) :
    execute Service.call (body records) s = ({ s with
      committed := advance s.committed records
      output := s.output ++ [(record, ⟨record.key, 1⟩)]
      pending := none }, true) := body_cons hnone hall

theorem Runs.of_open (h : Runs inputTopic s batches t)
    {transaction : Transaction P (ConsumerRecord P K V) (ProducerRecord K)}
    (hopen : s.pending = some transaction) : t.output = s.output := by
  cases h with
  | nil => rfl
  | cons hf hcalls _ =>
    rw [body_open (s := polled s _) hopen] at hcalls
    cases hcalls
  | throws hf hcalls =>
    rw [body_open (s := polled s _) hopen] at hcalls
    cases hcalls
    rfl

/-- No batch has two records, and none that has one comes after an empty one. -/
def OneByOne (batches : List (ConsumerRecords P K V)) : Prop :=
  (∀ records ∈ batches, records.all.length ≤ 1) ∧
    batches.Pairwise fun records later => records.all = [] → later.all = []

omit [DecidableEq P] [DecidableEq K] in
theorem oneByOne_cons_empty (hall : records.all = []) :
    OneByOne (records :: batches) ↔ batches.flatMap ConsumerRecords.all = [] := by
  rw [OneByOne, List.forall_mem_cons, List.pairwise_cons, List.flatMap_eq_nil_iff]
  constructor
  · rintro ⟨-, hlater, -⟩ later hmem
    exact hlater later hmem hall
  · intro hempty
    refine ⟨⟨by simp [hall], fun later hmem => by simp [hempty later hmem]⟩,
      fun later hmem _ => hempty later hmem, ?_⟩
    exact List.pairwise_of_forall_mem_list fun _ _ later hmem _ => hempty later hmem

omit [DecidableEq P] [DecidableEq K] in
theorem oneByOne_cons_single {record : ConsumerRecord P K V} (hall : records.all = [record]) :
    OneByOne (records :: batches) ↔ OneByOne batches := by
  rw [OneByOne, OneByOne, List.forall_mem_cons, List.pairwise_cons]
  simp [hall]

/-- Every record with the count 1. -/
def ones (records : List (ConsumerRecord P K V)) :
    List (ConsumerRecord P K V × ProducerRecord K) :=
  records.map fun record => (record, ⟨record.key, 1⟩)

theorem Runs.sends (h : Runs inputTopic s batches t) (hnone : s.pending = none) :
    ∃ forwarded, t.output = s.output ++ ones forwarded ∧
      forwarded <+: batches.flatMap ConsumerRecords.all ∧
      (forwarded = batches.flatMap ConsumerRecords.all ↔ OneByOne batches) := by
  induction h with
  | nil s => exact ⟨[], (List.append_nil _).symm, List.prefix_rfl, by simp [OneByOne]⟩
  | @cons s t u records batches hf hcalls h ih =>
    match hall : records.all with
    | [] =>
      rw [body_empty (s := polled s _) hnone hall] at hcalls
      cases hcalls
      refine ⟨[], (h.of_open rfl).trans (List.append_nil _).symm, List.nil_prefix, ?_⟩
      rw [oneByOne_cons_empty hall, List.flatMap_cons, hall, List.nil_append]
      exact eq_comm
    | record :: rest =>
      rw [body_cons (s := polled s _) hnone hall] at hcalls
      obtain ⟨rfl, hrest⟩ := Prod.mk.inj hcalls
      obtain rfl := List.isEmpty_iff.mp hrest
      obtain ⟨forwarded, houtput, hprefix, hiff⟩ := ih rfl
      refine ⟨record :: forwarded, ?_, ?_, ?_⟩
      · rw [houtput, List.append_assoc]
        rfl
      · rw [List.flatMap_cons, hall]
        exact List.prefix_cons_inj record |>.mpr hprefix
      · rw [oneByOne_cons_single hall, List.flatMap_cons, hall, ← hiff]
        exact List.cons_inj_right record
  | @throws s t records hf hcalls =>
    rw [List.flatMap_singleton]
    match hall : records.all with
    | [] =>
      rw [body_empty (s := polled s _) hnone hall] at hcalls
      cases hcalls
    | record :: rest =>
      rw [body_cons (s := polled s _) hnone hall] at hcalls
      obtain ⟨rfl, hrest⟩ := Prod.mk.inj hcalls
      have hne : rest ≠ [] := by rintro rfl; cases hrest
      refine ⟨[record], rfl, ⟨rest, rfl⟩, ?_⟩
      constructor
      · intro heq
        exact absurd (List.cons.inj heq).2.symm hne
      · rintro ⟨hone, -⟩
        have hle := hone records List.mem_cons_self
        rw [hall, List.length_cons] at hle
        exact absurd (List.length_eq_zero_iff.mp (by omega)) hne

/-- What the process sends, from its start on, are the records that it receives with the counts
since then, exactly if no poll returns two records, none that returns one comes after one that
returned nothing, and no key is received twice. -/
theorem counts_overall_iff (h : Runs inputTopic s.restart batches t) :
    ∃ sent, t.output = s.output ++ sent ∧
      sent.map Prod.fst <+: batches.flatMap ConsumerRecords.all ∧
      ((sent.map fun e => (e.2.key, e.2.value)) =
          (Counts.running ((batches.flatMap ConsumerRecords.all).map ConsumerRecord.key)).map
            (fun e => (e.1, (e.2 : Int))) ↔
        (∀ records ∈ batches, records.all.length ≤ 1) ∧
        (batches.Pairwise fun records later => records.all = [] → later.all = []) ∧
        ((batches.flatMap ConsumerRecords.all).map ConsumerRecord.key).Nodup) := by
  obtain ⟨forwarded, houtput, hprefix, hiff⟩ := h.sends rfl
  refine ⟨ones forwarded, houtput, ?_, ?_⟩
  · rw [ones, List.map_map]
    exact (List.map_id forwarded).symm ▸ hprefix
  · have hcast : Function.Injective fun e : K × Nat => (e.1, (e.2 : Int)) := by
      rintro ⟨k, m⟩ ⟨k', m'⟩ heq
      obtain ⟨hkey, hcount⟩ := Prod.mk.inj heq
      exact Prod.ext hkey (Int.ofNat.inj hcount)
    have hones : (ones forwarded).map (fun e => (e.2.key, e.2.value)) =
        ((forwarded.map ConsumerRecord.key).map (·, 1)).map
          fun e : K × Nat => (e.1, (e.2 : Int)) := by
      simp [ones]
    rw [hones, (List.map_injective_iff.mpr hcast).eq_iff, ← and_assoc, ← OneByOne, ← hiff]
    constructor
    · intro heq
      have hlength := congrArg List.length heq
      simp only [List.length_map, Counts.length_running] at hlength
      have hall := hprefix.eq_of_length hlength
      refine ⟨hall, Counts.running_eq_ones_iff _ |>.mp ?_⟩
      rw [← heq, hall]
    · rintro ⟨hall, hnodup⟩
      rw [hall, (Counts.running_eq_ones_iff _).mpr hnodup]

/-! ## Two records in two polls -/

def twoRecords (key : Nat → Nat) : Topic Unit Nat Unit where
  log _ := [⟨(), 0, key 0, ()⟩, ⟨(), 1, key 1, ()⟩]
  increasing _ := by simp [OffsetLog.Increasing]
  partition _ := by simp

/-- A poll that returns one record. -/
def single (key : Nat → Nat) (offset : Nat) : ConsumerRecords Unit Nat Unit where
  partitions := [()]
  records _ := [⟨(), offset, key offset, ()⟩]
  nodup := List.nodup_singleton ()
  mem_partitions := by simp

/-- Nothing is committed, and nothing was sent. -/
def atStart : Service Unit (ConsumerRecord Unit Nat Unit) (ProducerRecord Nat) where
  committed _ := 0
  output := []
  pending := none
  position _ := 0

theorem runs_twoRecords (key : Nat → Nat) :
    ∃ t, Runs (twoRecords key) atStart [single key 0, single key 1] t ∧
      t.output = ones [⟨(), 0, key 0, ()⟩, ⟨(), 1, key 1, ()⟩] := by
  refine ⟨_, .cons ?_ (body_single rfl rfl) (.cons ?_ (body_single rfl rfl) (.nil _)), ?_⟩
  · intro p
    simp [twoRecords, single, atStart, OffsetLog.since]
  · intro p
    simp [twoRecords, single, polled, advance, OffsetLog.since]
  · rfl

theorem counts_overall_two : ∃ t, Runs (twoRecords id) atStart [single id 0, single id 1] t ∧
    ∃ sent, t.output = atStart.output ++ sent ∧
      sent.map (fun e => (e.2.key, e.2.value)) =
        (Counts.running [0, 1]).map fun e => (e.1, (e.2 : Int)) := by
  obtain ⟨t, h, -⟩ := runs_twoRecords id
  obtain ⟨sent, houtput, -, hiff⟩ := counts_overall_iff (s := atStart) h
  refine ⟨t, h, sent, houtput, hiff.mpr ⟨?_, ?_, by decide⟩⟩
  · simp [single, ConsumerRecords.all]
  · simp [single, ConsumerRecords.all]

theorem repeated_key_miscounted : ∃ t,
    Runs (twoRecords fun _ => 7) atStart [single (fun _ => 7) 0, single (fun _ => 7) 1] t ∧
    (t.output.map fun e => (e.2.key, e.2.value)) ≠
      (Counts.running [7, 7]).map fun e => (e.1, (e.2 : Int)) := by
  obtain ⟨t, h, houtput⟩ := runs_twoRecords fun _ => 7
  refine ⟨t, h, ?_⟩
  rw [houtput]
  decide

end Nsds.Kafka.Lab1Es4C2
