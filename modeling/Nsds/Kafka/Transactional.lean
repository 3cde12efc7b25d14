import Nsds.Kafka.Records
import Nsds.Lib.Transition
import Nsds.Lib.TransactionLog

/-!
# `transactional/TransactionalProducer.java` and `transactional/TransactionalConsumer.java`

A producer that commits every other transaction, and a consumer. The brokers abort what a
producer has left open, when it is started again or after some time. They have ended a
transaction before the next one begins. `P` has the partitions of all topics.
-/

namespace Nsds.Kafka.Transactional

open TransactionLog Transition

/-- The records and markers of one partition. -/
abbrev Log (P : Type) := List (Entry Nat (ConsumerRecord P String String))

/-- Where `main` of the producer is. `ready i` and `sent i` are in the round `i` of the loop. -/
inductive Producer where
  | down
  | initTransactions
  | ready (i : Nat)
  | sent (i : Nat)
deriving DecidableEq, Repr

/-- The transaction that is open, or of which the marker is yet to be written, and the partition
of its record. -/
inductive Coordinator (P : Type) where
  | idle
  | ongoing (txn : Nat) (p : P)
  | ending (txn : Nat) (p : P) (commit : Bool)
deriving DecidableEq, Repr

/-- `initial` is where the consumer started, `rest` what its `for` loop has not come to, and
`printed` what this run of it has printed. `next` numbers the transactions. -/
structure State (P : Type) where
  producer : Producer
  coordinator : Coordinator P
  next : Nat
  log : P → Log P
  initial : P → Nat
  position : P → Nat
  rest : List (ConsumerRecord P String String)
  printed : List (ConsumerRecord P String String)

inductive Event where
  | start
  | initialized
  | send
  | endTransaction
  | fenced
  | aborted
  | crash
  | timeout
  | marker
  | subscribe
  | poll
  | println
deriving DecidableEq, Repr

/-- `numMessages` of `TransactionalProducer.java`. -/
def numMessages : Nat := 100000

/-- The value of message number `i`. -/
def value (i : Nat) : String := "Val" ++ toString i

variable {P : Type}

/-- A record gets the next offset of its partition. -/
def State.append [DecidableEq P] (s : State P) (p : P)
    (entry : Entry Nat (ConsumerRecord P String String)) : P → Log P :=
  Function.update s.log p (s.log p ++ [entry])

/-- `abortTransaction`, for what a producer has left open. -/
def Coordinator.abort : Coordinator P → Coordinator P
  | .ongoing txn p => .ending txn p false
  | coordinator => coordinator

/-- The producer, the coordinator and the consumer go on in any order, and crash at any time. -/
inductive Step [DecidableEq P] (isolation : Isolation) (s : State P) : Event → State P → Prop where
  -- a producer of the same `transactionalId` fences the one before it
  | start : Step isolation s .start
      { s with producer := .initTransactions, coordinator := s.coordinator.abort }
  | initialized : s.producer = .initTransactions → s.coordinator = .idle →
      Step isolation s .initialized { s with producer := .ready 0 }
  | send {i : Nat} {p : P} {key : String} : s.producer = .ready i → i < numMessages →
      s.coordinator = .idle →
      Step isolation s .send { s with
        producer := .sent i
        coordinator := .ongoing s.next p
        next := s.next + 1
        log := s.append p (.record s.next
          { partition := p, offset := (s.log p).length, key, value := value i }) }
  | endTransaction {i : Nat} {txn : Nat} {p : P} : s.producer = .sent i →
      s.coordinator = .ongoing txn p →
      Step isolation s .endTransaction { s with
        producer := .ready (i + 1)
        coordinator := .ending txn p (i % 2 = 0) }
  -- the brokers have aborted the transaction, which `abortTransaction` may overlook
  | fenced {i : Nat} : s.producer = .sent i → (∀ txn p, s.coordinator ≠ .ongoing txn p) →
      Step isolation s .fenced { s with producer := .down }
  | aborted {i : Nat} : s.producer = .sent i → (∀ txn p, s.coordinator ≠ .ongoing txn p) →
      i % 2 ≠ 0 → Step isolation s .aborted { s with producer := .ready (i + 1) }
  | crash : Step isolation s .crash { s with producer := .down }
  | timeout : Step isolation s .timeout { s with coordinator := s.coordinator.abort }
  | marker {txn : Nat} {p : P} {commit : Bool} : s.coordinator = .ending txn p commit →
      Step isolation s .marker { s with
        coordinator := .idle
        log := s.append p (.marker txn commit) }
  -- a run of the consumer starts at committed offsets of its group, or at the end
  | subscribe {initial : P → Nat} : (∀ p, initial p ≤ isolation.limit (s.log p)) →
      Step isolation s .subscribe
        { s with initial, position := initial, rest := [], printed := [] }
  | poll {records : ConsumerRecords P String String} {position : P → Nat} : s.rest = [] →
      (∀ p, s.position p ≤ position p ∧ position p ≤ isolation.limit (s.log p) ∧
        records.records p = isolation.read (s.log p) (s.position p) (position p)) →
      Step isolation s .poll { s with position, rest := records.all }
  | println {record : ConsumerRecord P String String}
      {rest : List (ConsumerRecord P String String)} : s.rest = record :: rest →
      Step isolation s .println { s with rest, printed := s.printed ++ [record] }

def system [DecidableEq P] (isolation : Isolation) : System (State P) Event where
  start s := s.producer = .down ∧ s.coordinator = .idle ∧ (∀ p, s.log p = []) ∧
    (∀ p, s.initial p = 0 ∧ s.position p = 0) ∧ s.rest = [] ∧ s.printed = []
  step := Step isolation

/-- Of the transactions of the producer, those of even rounds. -/
def State.Even (s : State P) (txn : Nat) : Prop :=
  ∀ p r, .record txn r ∈ s.log p → ∃ i, i % 2 = 0 ∧ r.value = value i

/-- The transaction of an entry. -/
def txnOf : Entry Nat (ConsumerRecord P String String) → Nat
  | .record txn _ => txn
  | .marker txn _ => txn

/-- The brokers' side: only transactions of even rounds are committed, and no transaction is open
but that of the coordinator. -/
structure ProducerOk (s : State P) : Prop where
  fresh : ∀ p, ∀ entry ∈ s.log p, txnOf entry < s.next
  partition : ∀ p txn r, .record txn r ∈ s.log p → r.partition = p
  ongoing : ∀ txn p, s.coordinator = .ongoing txn p → txn < s.next ∧
    ∀ i, s.producer = .sent i → ∀ q r, .record txn r ∈ s.log q → r.value = value i
  ending : ∀ txn p commit, s.coordinator = .ending txn p commit → txn < s.next ∧
    (commit = true → s.Even txn)
  markers : ∀ p txn, .marker txn true ∈ s.log p → s.Even txn
  ended : ∀ p txn r, .record txn r ∈ s.log p → outcome (s.log p) txn = none →
    s.coordinator = .ongoing txn p ∨ ∃ commit, s.coordinator = .ending txn p commit

/-- The consumer's side: it has got what there is to see between its first position and the one
that it has reached. -/
structure ConsumerOk [DecidableEq P] (isolation : Isolation) (s : State P) : Prop where
  le : ∀ p, s.initial p ≤ s.position p ∧ s.position p ≤ isolation.limit (s.log p)
  seen : ∀ p, (s.printed ++ s.rest).filter (fun r => r.partition = p) =
    isolation.read (s.log p) (s.initial p) (s.position p)

variable {isolation : Isolation} {s t : State P}

/-! ## The producer -/

theorem ProducerOk.producer (h : ProducerOk s) {producer : Producer}
    (hsent : ∀ i, producer ≠ .sent i) : ProducerOk { s with producer } where
  fresh := h.fresh
  partition := h.partition
  ongoing txn p hc := ⟨(h.ongoing txn p hc).1, fun i hi => absurd hi (hsent i)⟩
  ending := h.ending
  markers := h.markers
  ended := h.ended

theorem ProducerOk.abort (h : ProducerOk s) :
    ProducerOk { s with coordinator := s.coordinator.abort } := by
  have habort : (∃ txn p, s.coordinator = .ongoing txn p ∧
      s.coordinator.abort = .ending txn p false) ∨
      (∀ txn p, s.coordinator ≠ .ongoing txn p) ∧ s.coordinator.abort = s.coordinator := by
    cases s.coordinator with
    | ongoing txn p => exact .inl ⟨txn, p, rfl, rfl⟩
    | idle => exact .inr ⟨by simp, rfl⟩
    | ending => exact .inr ⟨by simp, rfl⟩
  rcases habort with ⟨txn, p, hongoing, heq⟩ | ⟨-, heq⟩
  · refine ⟨h.fresh, h.partition, ?_, ?_, h.markers, ?_⟩
    · simp [heq]
    · intro txn' p' commit hc
      obtain ⟨rfl, rfl, rfl⟩ : txn = txn' ∧ p = p' ∧ false = commit := by simpa [heq] using hc
      exact ⟨(h.ongoing txn p hongoing).1, by simp⟩
    · intro q txn' r hr hnone
      right
      rcases h.ended q txn' r hr hnone with hc | ⟨commit, hc⟩
      · obtain ⟨rfl, rfl⟩ : txn = txn' ∧ p = q := by simpa [hongoing] using hc
        exact ⟨false, heq⟩
      · simp [hongoing] at hc
  · rw [heq]
    exact h

theorem ProducerOk.endTransaction (h : ProducerOk s) {i txn : Nat} {p : P}
    (hsent : s.producer = .sent i) (hongoing : s.coordinator = .ongoing txn p) :
    ProducerOk { s with
      producer := .ready (i + 1)
      coordinator := .ending txn p (i % 2 = 0) } := by
  obtain ⟨hlt, hvalue⟩ := h.ongoing txn p hongoing
  refine ⟨h.fresh, h.partition, by simp, ?_, h.markers, ?_⟩
  · intro txn' p' commit hc
    obtain ⟨rfl, rfl, rfl⟩ : txn = txn' ∧ p = p' ∧ decide (i % 2 = 0) = commit := by simpa using hc
    exact ⟨hlt, fun heven q r hr => ⟨i, of_decide_eq_true heven, hvalue i hsent q r hr⟩⟩
  · intro q txn' r hr hnone
    rcases h.ended q txn' r hr hnone with hc | ⟨commit, hc⟩
    · obtain ⟨rfl, rfl⟩ : txn = txn' ∧ p = q := by simpa [hongoing] using hc
      exact .inr ⟨_, rfl⟩
    · simp [hongoing] at hc

variable [DecidableEq P]

theorem mem_append {p q : P} {entry entry' : Entry Nat (ConsumerRecord P String String)} :
    entry' ∈ s.append p entry q ↔ entry' ∈ s.log q ∨ q = p ∧ entry' = entry := by
  unfold State.append
  rcases eq_or_ne q p with rfl | hq
  · simp
  · simp [hq]

theorem append_eq (p q : P) (entry : Entry Nat (ConsumerRecord P String String)) :
    ∃ more, s.append p entry q = s.log q ++ more := by
  unfold State.append
  rcases eq_or_ne q p with rfl | hq
  · exact ⟨[entry], by simp⟩
  · exact ⟨[], by simp [hq]⟩

theorem outcome_of_append {p q : P} {entry : Entry Nat (ConsumerRecord P String String)} {txn : Nat}
    (h : outcome (s.append p entry q) txn = none) : outcome (s.log q) txn = none := by
  obtain ⟨more, hmore⟩ := append_eq (s := s) p q entry
  rw [hmore] at h
  cases houtcome : outcome (s.log q) txn with
  | none => rfl
  | some commit =>
    rw [outcome_append houtcome] at h
    cases h

theorem State.Even.append {txn : Nat} (h : s.Even txn) {p : P}
    {entry : Entry Nat (ConsumerRecord P String String)} (hother : ∀ r, entry ≠ .record txn r)
    (ht : t.log = s.append p entry) : t.Even txn := by
  intro q r hr
  rw [ht, mem_append] at hr
  rcases hr with hr | ⟨-, heq⟩
  · exact h q r hr
  · exact absurd heq.symm (hother r)

theorem ProducerOk.send (h : ProducerOk s) {i : Nat} (p : P) (key : String)
    (hidle : s.coordinator = .idle) :
    ProducerOk { s with
      producer := .sent i
      coordinator := .ongoing s.next p
      next := s.next + 1
      log := s.append p (.record s.next
        { partition := p, offset := (s.log p).length, key, value := value i }) } := by
  refine ⟨fun q entry hentry => ?_, fun q txn r hr => ?_, ?_, by simp, fun q txn hmem => ?_,
    fun q txn r hr hnone => ?_⟩
  · rcases mem_append.mp hentry with hentry | ⟨-, rfl⟩
    · exact Nat.lt_succ_of_lt (h.fresh q entry hentry)
    · exact Nat.lt_succ_self _
  · rcases mem_append.mp hr with hr | ⟨rfl, heq⟩
    · exact h.partition q txn r hr
    · obtain ⟨-, rfl⟩ := Entry.record.inj heq
      rfl
  · intro txn p' hc
    obtain ⟨rfl, rfl⟩ : s.next = txn ∧ p = p' := by simpa using hc
    refine ⟨Nat.lt_succ_self _, fun j hj q r hr => ?_⟩
    obtain rfl : i = j := by simpa using hj
    rcases mem_append.mp hr with hr | ⟨-, heq⟩
    · exact absurd (h.fresh q _ hr) (Nat.lt_irrefl _)
    · obtain ⟨-, rfl⟩ := Entry.record.inj heq
      rfl
  · rcases mem_append.mp hmem with hmem | ⟨-, heq⟩
    · -- no earlier transaction gets another record
      refine (h.markers q txn hmem).append (fun r heq => ?_) rfl
      obtain ⟨rfl, -⟩ := Entry.record.inj heq
      exact Nat.lt_irrefl _ (h.fresh q _ hmem)
    · cases heq
  · rcases mem_append.mp hr with hr | ⟨rfl, heq⟩
    · rcases h.ended q txn r hr (outcome_of_append hnone) with hc | ⟨commit, hc⟩
      · simp [hidle] at hc
      · simp [hidle] at hc
    · obtain ⟨rfl, -⟩ := Entry.record.inj heq
      exact .inl rfl

theorem ProducerOk.marker (h : ProducerOk s) {txn : Nat} {p : P} {commit : Bool}
    (hending : s.coordinator = .ending txn p commit) :
    ProducerOk { s with coordinator := .idle, log := s.append p (.marker txn commit) } := by
  obtain ⟨hlt, hcommit⟩ := h.ending txn p commit hending
  refine ⟨fun q entry hentry => ?_, fun q txn' r hr => ?_, by simp, by simp, fun q txn' hmem => ?_,
    fun q txn' r hr hnone => ?_⟩
  · rcases mem_append.mp hentry with hentry | ⟨-, rfl⟩
    · exact h.fresh q entry hentry
    · exact hlt
  · rcases mem_append.mp hr with hr | ⟨-, heq⟩
    · exact h.partition q txn' r hr
    · cases heq
  · rcases mem_append.mp hmem with hmem | ⟨-, heq⟩
    · exact (h.markers q txn' hmem).append (by simp) rfl
    · obtain ⟨rfl, rfl⟩ := Entry.marker.inj heq
      exact (hcommit rfl).append (by simp) rfl
  · rcases mem_append.mp hr with hr | ⟨-, heq⟩
    · rcases h.ended q txn' r hr (outcome_of_append hnone) with hc | ⟨commit', hc⟩
      · simp [hending] at hc
      · -- the marker ends the only transaction that was open
        obtain ⟨rfl, rfl, rfl⟩ : txn = txn' ∧ p = q ∧ commit = commit' := by
          simpa [hending] using hc
        simp [State.append, outcome, List.findSome?_append, Entry.ends] at hnone
    · cases heq

theorem ProducerOk.step {e : Event} (h : ProducerOk s) (hstep : Step isolation s e t) :
    ProducerOk t := by
  cases hstep with
  | start => exact h.abort.producer (by simp)
  | initialized => exact h.producer (by simp)
  | @send i p key _ _ hidle => exact h.send p key hidle
  | endTransaction hsent hongoing => exact h.endTransaction hsent hongoing
  | fenced => exact h.producer (by simp)
  | aborted => exact h.producer (by simp)
  | crash => exact h.producer (by simp)
  | timeout => exact h.abort
  | marker hending => exact h.marker hending
  | subscribe => exact ⟨h.fresh, h.partition, h.ongoing, h.ending, h.markers, h.ended⟩
  | poll => exact ⟨h.fresh, h.partition, h.ongoing, h.ending, h.markers, h.ended⟩
  | println => exact ⟨h.fresh, h.partition, h.ongoing, h.ending, h.markers, h.ended⟩

/-! ## The consumer -/

theorem ConsumerOk.append (h : ConsumerOk isolation s) (hinitial : t.initial = s.initial)
    (hposition : t.position = s.position) (hrest : t.rest = s.rest)
    (hprinted : t.printed = s.printed) (hlog : ∀ p, ∃ more, t.log p = s.log p ++ more) :
    ConsumerOk isolation t := by
  refine ⟨fun p => ?_, fun p => ?_⟩
  · obtain ⟨more, hmore⟩ := hlog p
    obtain ⟨hle, hlimit⟩ := h.le p
    rw [hinitial, hposition, hmore]
    exact ⟨hle, Nat.le_trans hlimit Isolation.limit_le_append⟩
  · obtain ⟨more, hmore⟩ := hlog p
    rw [hinitial, hposition, hrest, hprinted, hmore, Isolation.read_append (h.le p).2]
    exact h.seen p

theorem ConsumerOk.poll (h : ConsumerOk isolation s) (hproducer : ProducerOk s)
    {records : ConsumerRecords P String String} {position : P → Nat} (hrest : s.rest = [])
    (hpolled : ∀ p, s.position p ≤ position p ∧ position p ≤ isolation.limit (s.log p) ∧
      records.records p = isolation.read (s.log p) (s.position p) (position p)) :
    ConsumerOk isolation { s with position, rest := records.all } := by
  have hpartition (p : P) (r : ConsumerRecord P String String) (hr : r ∈ records.records p) :
      r.partition = p := by
    rw [(hpolled p).2.2] at hr
    obtain ⟨txn, hmem, -⟩ := Isolation.mem_read hr
    exact hproducer.partition p txn r hmem
  have hall (p : P) : records.all.filter (fun r => r.partition = p) = records.records p := by
    rw [ConsumerRecords.all, filter_flatMap_of_nodup _ _ hpartition records.nodup]
    split
    · rfl
    · next hp =>
      by_contra hne
      exact hp ((records.mem_partitions p).mpr (Ne.symm hne))
  refine ⟨fun p => ⟨Nat.le_trans (h.le p).1 (hpolled p).1, (hpolled p).2.1⟩, fun p => ?_⟩
  have hseen := h.seen p
  rw [hrest, List.append_nil] at hseen
  rw [List.filter_append, hseen, hall, (hpolled p).2.2]
  exact (Isolation.read_split (h.le p).1 (hpolled p).1).symm

theorem ConsumerOk.step {e : Event} (h : ConsumerOk isolation s) (hproducer : ProducerOk s)
    (hstep : Step isolation s e t) : ConsumerOk isolation t := by
  have hsame (p : P) : ∃ more, s.log p = s.log p ++ more := ⟨[], by simp⟩
  cases hstep with
  | start => exact h.append rfl rfl rfl rfl hsame
  | initialized => exact h.append rfl rfl rfl rfl hsame
  | send => exact h.append rfl rfl rfl rfl fun q => append_eq _ q _
  | endTransaction => exact h.append rfl rfl rfl rfl hsame
  | fenced => exact h.append rfl rfl rfl rfl hsame
  | aborted => exact h.append rfl rfl rfl rfl hsame
  | crash => exact h.append rfl rfl rfl rfl hsame
  | timeout => exact h.append rfl rfl rfl rfl hsame
  | marker => exact h.append rfl rfl rfl rfl fun q => append_eq _ q _
  | subscribe hinitial => exact ⟨fun p => ⟨Nat.le_refl _, hinitial p⟩, fun p => by simp⟩
  | poll hrest hpolled => exact h.poll hproducer hrest hpolled
  | println hrest =>
    refine ⟨h.le, fun p => ?_⟩
    rw [← h.seen p, hrest, List.append_assoc]
    rfl

theorem ok_of_reachable (h : (system isolation).Reachable s) :
    ProducerOk s ∧ ConsumerOk isolation s := by
  refine h.invariant (fun s => ProducerOk s ∧ ConsumerOk isolation s) ?_ ?_
  · rintro s ⟨-, hidle, hlog, hposition, hrest, hprinted⟩
    refine ⟨⟨?_, ?_, ?_, ?_, ?_, ?_⟩, fun p => ?_, fun p => ?_⟩
    · simp [hlog]
    · simp [hlog]
    · simp [hidle]
    · simp [hidle]
    · simp [hlog]
    · simp [hlog]
    · simp [hposition]
    · simp [hrest, hprinted, hposition]
  · rintro s e t ⟨hproducer, hconsumer⟩ hstep
    exact ⟨hproducer.step hstep, hconsumer.step hproducer hstep⟩

/-- The consumer has got exactly what there is to see up to where it is, in order, and nothing
that it has passed will be there to see later. With `read_committed` these are messages of even
rounds. Only the transaction that the producer has open, or that is about to end, can keep it
from the end of a partition. -/
theorem every_other_message (h : (system isolation).Reachable s) :
    (∀ p, (s.printed ++ s.rest).filter (fun r => r.partition = p) =
        isolation.read (s.log p) (s.initial p) (s.position p) ∧
      s.position p ≤ isolation.limit (s.log p)) ∧
    (isolation = .readCommitted →
      ∀ r ∈ s.printed, ∃ i, i % 2 = 0 ∧ r.value = value i) ∧
    (s.coordinator = .idle → ∀ p, isolation.limit (s.log p) = (s.log p).length) := by
  obtain ⟨hproducer, hconsumer⟩ := ok_of_reachable h
  refine ⟨fun p => ⟨hconsumer.seen p, (hconsumer.le p).2⟩, fun hcommitted r hr => ?_,
    fun hidle p => ?_⟩
  · have hread : r ∈ isolation.read (s.log r.partition) (s.initial r.partition)
        (s.position r.partition) := by
      rw [← hconsumer.seen]
      simp [hr]
    obtain ⟨txn, hmem, hmarker⟩ := Isolation.mem_read hread
    exact hproducer.markers _ txn (hmarker hcommitted) _ r hmem
  · cases isolation with
    | readUncommitted => rfl
    | readCommitted =>
      refine List.findIdx_eq_length_of_false fun entry hentry => ?_
      cases entry with
      | marker => rfl
      | record txn r =>
        simp only [Entry.isOpen, Option.isNone_eq_false_iff, Option.isSome_iff_ne_none]
        intro hnone
        rcases hproducer.ended p txn r hentry hnone with hc | ⟨commit, hc⟩
        · simp [hidle] at hc
        · simp [hidle] at hc

def firstRecord : ConsumerRecord Unit String String := ⟨(), 0, "Key7", value 0⟩

def firstRecords : ConsumerRecords Unit String String where
  partitions := [()]
  records _ := [firstRecord]
  nodup := by decide
  mem_partitions := by simp

def noRecords : ConsumerRecords Unit String String where
  partitions := []
  records _ := []
  nodup := by decide
  mem_partitions := by simp

theorem every_other_message_two : ∃ s : State Unit, s.printed = [firstRecord] ∧
    s.position () = 4 ∧ (s.log ()).length = 4 ∧
      ∀ r ∈ s.printed, ∃ i, i % 2 = 0 ∧ r.value = value i := by
  have h0 : (system (P := Unit) .readCommitted).Reachable
      ⟨.down, .idle, 0, fun _ => [], fun _ => 0, fun _ => 0, [], []⟩ :=
    .start ⟨rfl, rfl, fun _ => rfl, fun _ => ⟨rfl, rfl⟩, rfl, rfl⟩
  have h1 := h0.step .start
  have h2 := h1.step (.initialized rfl rfl)
  have h3 := h2.step (@Step.send _ _ _ _ 0 () "Key7" rfl (by decide) rfl)
  have h4 := h3.step (.endTransaction rfl rfl)
  have h5 := h4.step (.marker rfl)
  have h6 := h5.step (@Step.send _ _ _ _ 1 () "Key3" rfl (by decide) rfl)
  have h7 := h6.step (@Step.poll _ _ _ _ firstRecords (fun _ => 2) rfl
    fun _ => ⟨Nat.zero_le 2, Nat.le_refl 2, rfl⟩)
  have h8 := h7.step (.endTransaction rfl rfl)
  have h9 := h8.step (.println rfl)
  have h10 := h9.step (.marker rfl)
  have h11 := h10.step (@Step.poll _ _ _ _ noRecords (fun _ => 4) rfl
    fun _ => ⟨Nat.le_add_left 2 2, Nat.le_refl 4, rfl⟩)
  exact ⟨_, rfl, rfl, rfl, (every_other_message h11).2.1 rfl⟩

end Nsds.Kafka.Transactional
