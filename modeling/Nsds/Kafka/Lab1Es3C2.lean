import Mathlib.Data.List.Nodup
import Nsds.Kafka.Transactions

/-!
# `Lab1/ES3/C2.java`

The loop of the forwarder with a filter in it, but the offsets and the commit are
inside the `for` loop. The first record commits the offsets of the whole batch.
-/

namespace Nsds.Kafka.Lab1Es3C2

open OffsetLog CrashLoop Transition

/-- A Java string is the list of its `char`s. -/
abbrev JString := List Nat

structure ProducerRecord (K : Type) where
  key : K
  value : JString
deriving DecidableEq, Repr

/-- `processed.chars().filter(x -> x == Character.toLowerCase(x))`, joined again. -/
def lowerOnly (toLowerCase : Nat → Nat) (processed : JString) : JString :=
  processed.filter fun x => x = toLowerCase x

variable {P K : Type} [DecidableEq P]

/-- What is sent for a record. The value is `null` in a record without one, and then
`processed.chars()` throws. -/
def filtered (toLowerCase : Nat → Nat) (record : ConsumerRecord P K (Option JString)) :
    Option (ProducerRecord K) :=
  record.value.map fun processed => ⟨record.key, lowerOnly toLowerCase processed⟩

/-- A null value makes the turn fail. Any other is sent, and the offsets of the batch with it. -/
def turn (toLowerCase : Nat → Nat) (records : ConsumerRecords P K (Option JString))
    (record : ConsumerRecord P K (Option JString)) :
    List (Call P (ConsumerRecord P K (Option JString)) (ProducerRecord K)) :=
  match record.value with
  | none => [.fail]
  | some processed =>
    let output := lowerOnly toLowerCase processed
    [.send record ⟨record.key, output⟩, .sendOffsetsToTransaction records.offsets,
      .commitTransaction]

def body (toLowerCase : Nat → Nat) (records : ConsumerRecords P K (Option JString)) :
    List (Call P (ConsumerRecord P K (Option JString)) (ProducerRecord K)) :=
  .beginTransaction :: records.all.flatMap (turn toLowerCase records)

def system (toLowerCase : Nat → Nat) (inputTopic : Topic P K (Option JString)) (initial : P → Nat) :
    System (State (Service P (ConsumerRecord P K (Option JString)) (ProducerRecord K))
      (Call P (ConsumerRecord P K (Option JString)) (ProducerRecord K)) Unit)
      (Action (ConsumerRecords P K (Option JString))) :=
  (transactionalLoop inputTopic (body toLowerCase)).system (Starts initial)

variable {toLowerCase : Nat → Nat} {inputTopic : Topic P K (Option JString)} {initial : P → Nat}
  {s : Service P (ConsumerRecord P K (Option JString)) (ProducerRecord K)}
  {records : ConsumerRecords P K (Option JString)}

/-! ## Batches that are committed as a whole -/

/-- No second record comes after one that is sent and committed: the first has no value, or
there is a transaction open already, and `beginTransaction()` throws. -/
def BatchOk (s : Service P (ConsumerRecord P K (Option JString)) (ProducerRecord K))
    (records : ConsumerRecords P K (Option JString)) : Prop :=
  s.pending = none → ∀ first second rest, records.all = first :: second :: rest → first.value = none

theorem turn_safe (hs : ExactlyOnce inputTopic (filtered toLowerCase) initial s)
    (hf : Fetched inputTopic s.committed records)
    {record : ConsumerRecord P K (Option JString)} (hall : records.all = [record]) :
    Calls Service.call (ExactlyOnce inputTopic (filtered toLowerCase) initial)
      (fun s => s.position = s.committed) (turn toLowerCase records record)
      { s with
        pending := some { sent := [], offsets := fun _ => none }
        position := advance s.committed records } := by
  unfold turn
  split
  case h_1 => intro s1 h1; cases h1
  case h_2 processed hvalue =>
    intro s1 h1
    cases h1
    refine ⟨hs, fun s2 h2 => ?_⟩
    cases h2
    refine ⟨hs, fun s3 h3 => ?_⟩
    simp only [Service.call, Option.map_some, Option.some.injEq, Option.or_none, offsets_getD] at h3
    subst h3
    refine ⟨hs.commit hf ?_, rfl⟩
    simp [hall, filtered, hvalue]

theorem body_safe (hs : ExactlyOnce inputTopic (filtered toLowerCase) initial s)
    (hf : Fetched inputTopic s.committed records) (hok : BatchOk s records) :
    Calls Service.call (ExactlyOnce inputTopic (filtered toLowerCase) initial)
      (fun s => s.position = s.committed) (body toLowerCase records)
      { s with position := advance s.committed records } := by
  intro s1 h1
  simp only [Service.call] at h1
  split at h1
  case h_2 => cases h1
  case h_1 hopen =>
    cases h1
    refine ⟨hs, ?_⟩
    match hall : records.all with
    | [] =>
      funext p
      simp [advance, all_eq_nil_iff.mp hall p]
    | [record] =>
      rw [List.flatMap_cons, List.flatMap_nil, List.append_nil]
      exact turn_safe hs hf hall
    | first :: second :: rest =>
      rw [List.flatMap_cons, turn, hok hopen first second rest hall]
      intro s2 h2
      cases h2

/-- As long as every batch is committed as a whole, the output is the filtered image of what
is below the committed offsets, with any crashes, those of the loop itself included. -/
theorem filter_exactly_once
    {s : State (Service P (ConsumerRecord P K (Option JString)) (ProducerRecord K))
      (Call P (ConsumerRecord P K (Option JString)) (ProducerRecord K)) Unit}
    (h : ((system toLowerCase inputTopic initial).restrict
      (InputOk fun _ s records => BatchOk s records)).Reachable s) :
    ExactlyOnce inputTopic (filtered toLowerCase) initial s.service := by
  have hsafe : Safe (transactionalLoop inputTopic (body toLowerCase))
      (fun _ s records => BatchOk s records)
      (ExactlyOnce inputTopic (filtered toLowerCase) initial)
      (fun _ s => s.position = s.committed) := by
    constructor
    · exact fun s hs => ⟨hs, rfl⟩
    · rintro _ s records s' hs hidle ⟨hf, rfl⟩ hok
      rw [hidle] at hf ⊢
      exact ⟨hs, body_safe hs hf hok⟩
  exact (hsafe.invariant (fun _ h => h.exactlyOnce) h).1

/-! ## The other batches -/

theorem body_position (hs : s.pending = none → s.position = s.committed) :
    Calls Service.call (fun _ => True) (fun s => s.pending = none → s.position = s.committed)
      (body toLowerCase records) { s with position := advance s.position records } := by
  intro s1 h1
  simp only [Service.call] at h1
  split at h1
  case h_2 => cases h1
  case h_1 hopen =>
    cases h1
    refine ⟨trivial, ?_⟩
    match records.all with
    | [] => intro hnone; cases hnone
    | first :: rest =>
      rw [List.flatMap_cons, turn]
      split
      case h_1 => intro s2 h2; cases h2
      case h_2 =>
        intro s2 h2
        cases h2
        refine ⟨trivial, fun s3 h3 => ?_⟩
        cases h3
        refine ⟨trivial, fun s4 h4 => ?_⟩
        cases h4
        refine ⟨trivial, ?_⟩
        match rest with
        | [] =>
          intro _
          funext p
          simp [hs hopen, offsets_getD]
        | second :: rest =>
          rw [List.flatMap_cons, turn]
          split <;> (intro s5 h5; cases h5)

theorem idle_position (h : (system toLowerCase inputTopic initial).Reachable ⟨s, some ((), [])⟩)
    (hopen : s.pending = none) : s.position = s.committed := by
  have hsafe : Safe (transactionalLoop inputTopic (body toLowerCase)) (fun _ _ _ => True)
      (fun _ => True) (fun _ s => s.pending = none → s.position = s.committed) := by
    constructor
    · exact fun s _ => ⟨trivial, fun _ => rfl⟩
    · rintro _ s records s' - hidle ⟨-, rfl⟩ -
      exact ⟨trivial, body_position hidle⟩
  exact (hsafe.reachable (fun _ _ => trivial) h).2 () [] rfl hopen

/-- Any other batch: its second record is below the committed offsets as soon as the first is
sent, and it has no output. -/
theorem second_record_lost
    (hidle : (system toLowerCase inputTopic initial).Reachable ⟨s, some ((), [])⟩)
    (hf : Fetched inputTopic s.position records) (hbad : ¬ BatchOk s records) :
    ∃ t, (system toLowerCase inputTopic initial).Reachable t ∧
      ¬ ExactlyOnce inputTopic (filtered toLowerCase) initial t.service := by
  unfold BatchOk at hbad
  push Not at hbad
  obtain ⟨hopen, first, second, rest, hall, hvalue⟩ := hbad
  obtain ⟨processed, hvalue⟩ := Option.ne_none_iff_exists'.mp hvalue
  -- A run that went wrong before has nothing left to show.
  rcases Classical.em (ExactlyOnce inputTopic (filtered toLowerCase) initial s) with hs | hs
  case inr => exact ⟨_, hidle, hs⟩
  have hpos := idle_position hidle hopen
  have hbody : body toLowerCase records =
      [.beginTransaction, .send first ⟨first.key, lowerOnly toLowerCase processed⟩,
        .sendOffsetsToTransaction records.offsets, .commitTransaction] ++
      (second :: rest).flatMap (turn toLowerCase records) := by
    rw [body, hall, List.flatMap_cons, turn, hvalue]
    rfl
  have hpolled := reachable_input (reachable_runs hidle)
    (show (transactionalLoop inputTopic (body toLowerCase)).input s records
      { s with position := advance s.position records } from ⟨hf, rfl⟩) trivial
  simp only [transactionalLoop, hbody] at hpolled
  have hcommitted := reachable_calls _ hpolled (by simp [Service.call, hopen]; rfl)
  refine ⟨_, hcommitted.of_restrict, fun hE => ?_⟩
  rw [hpos] at hf
  have hnodup := hf.all_nodup
  rw [hall] at hnodup
  have hsecond : second ∈ records.all := by simp [hall]
  obtain ⟨hlog, hlow, hhigh⟩ := hf.mem_all hsecond
  have hinit := (hs second.partition).1
  have hmem := (hE.mem_iff second).mpr ⟨hlog, by omega, by simpa [offsets_getD] using hhigh⟩
  have hcases : (∃ o, (second, o) ∈ s.output) ∨ second = first := by simpa using hmem
  rcases hcases with ⟨o, ho⟩ | heq
  · have := ((hs.mem_iff second).mp (List.mem_map_of_mem ho)).2.2
    omega
  · exact (List.nodup_cons.mp hnodup).1 (by simp [heq])

/-! ## Two records in one poll -/

/-- `toLowerCase` of one character, for ASCII. -/
def asciiToLowerCase (x : Nat) : Nat := if 65 ≤ x ∧ x ≤ 90 then x + 32 else x

def twoRecords : Topic Unit Nat (Option JString) where
  log _ := [⟨(), 0, 0, some [97, 65]⟩, ⟨(), 1, 0, some [98]⟩]
  increasing _ := by simp [Increasing]
  partition _ := by simp

/-- A poll that returns both records. -/
def bothRecords : ConsumerRecords Unit Nat (Option JString) where
  partitions := [()]
  records := twoRecords.log
  nodup := List.nodup_singleton ()
  mem_partitions := by simp [twoRecords]

theorem filter_not_exactly_once :
    ∃ t, (system asciiToLowerCase twoRecords fun _ => 0).Reachable t ∧
      ¬ ExactlyOnce twoRecords (filtered asciiToLowerCase) (fun _ => 0) t.service := by
  have hstart : (system asciiToLowerCase twoRecords fun _ => 0).Reachable
      ⟨⟨fun _ => 0, [], none, fun _ => 0⟩, none⟩ := .start ⟨⟨rfl, rfl⟩, rfl⟩
  have hf : Fetched twoRecords (fun _ => 0) bothRecords := by
    intro p
    simp [bothRecords, twoRecords, since]
  have hidle := (reachable_restart (reachable_runs hstart)).of_restrict
  refine second_record_lost hidle hf fun hok => ?_
  have hnull := hok rfl _ _ _ rfl
  cases hnull

/-- A poll that returns the first record only. -/
def firstRecord : ConsumerRecords Unit Nat (Option JString) where
  partitions := [()]
  records _ := [⟨(), 0, 0, some [97, 65]⟩]
  nodup := List.nodup_singleton ()
  mem_partitions := by simp

theorem filter_exactly_once_single :
    ∃ t : State (Service Unit (ConsumerRecord Unit Nat (Option JString)) (ProducerRecord Nat))
        (Call Unit (ConsumerRecord Unit Nat (Option JString)) (ProducerRecord Nat)) Unit,
      t.service.committed () = 1 ∧ t.service.output.map Prod.snd = [⟨0, [97]⟩] ∧
      ExactlyOnce twoRecords (filtered asciiToLowerCase) (fun _ => 0) t.service := by
  have hstart : ((system asciiToLowerCase twoRecords fun _ => 0).restrict
      (InputOk fun _ s records => BatchOk s records)).Reachable
      ⟨⟨fun _ => 0, [], none, fun _ => 0⟩, none⟩ := .start ⟨⟨rfl, rfl⟩, rfl⟩
  have hf : Fetched twoRecords (fun _ => 0) firstRecord := by
    intro p
    simp [firstRecord, twoRecords, since]
  have hpolled := reachable_input (reachable_restart hstart)
    (show (transactionalLoop twoRecords (body asciiToLowerCase)).input _ firstRecord _ from
      ⟨hf, rfl⟩) fun _ first second rest hall => by simp [ConsumerRecords.all, firstRecord] at hall
  have hdone := reachable_calls (body asciiToLowerCase firstRecord)
    (by rw [List.append_nil]; exact hpolled) rfl
  exact ⟨_, rfl, rfl, filter_exactly_once hdone⟩

end Nsds.Kafka.Lab1Es3C2
