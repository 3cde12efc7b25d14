import Mathlib.Data.List.AList
import Mathlib.Data.List.Dedup
import Mathlib.Data.List.Perm.Basic
import Nsds.Kafka.Records
import Nsds.Lib.History
import Nsds.Lib.MachineInt
import Nsds.Lib.Transition

/-!
# `PopularTopicConsumer.java`

A consumer that is alone in its group counts the records of every key. The counts are
gone when it stops, the offsets that were committed are not.
-/

namespace Nsds.Kafka.PopularTopicConsumer

open History MachineInt Transition
open scoped List

variable {P K V : Type} [DecidableEq K]

/-! ## One record -/

/-- The `HashMap`. -/
abbrev CountMap (K : Type) := AList fun _ : K => Int

/-- `countMap.compute(record.key(), (k, v) -> v == null ? 1 : v + 1)`. -/
def compute (countMap : CountMap K) (key : K) : CountMap K :=
  countMap.insert key <|
    match countMap.lookup key with
    | none => 1
    | some v => wrap 32 (v + 1)

def entrySet (countMap : CountMap K) : List (K × Int) := countMap.entries.map fun m => (m.1, m.2)

/-- What a turn prints. -/
structure Printed (K : Type) where
  occurrences : Int
  keys : List K
deriving DecidableEq, Repr

/-- `entries` is the map in the order in which it is walked. On an empty map
`orElseThrow()` throws. -/
def printMax (entries : List (K × Int)) : Option (Printed K) :=
  (entries.map Prod.snd).max?.map fun max => {
    occurrences := max
    keys := (entries.filter fun m => m.2 = max).map Prod.fst }

/-! ## The loop -/

/-- `records` are those of the last poll that the `for` loop has not come to. -/
structure Consumer (P K V : Type) where
  position : P → Nat
  countMap : CountMap K
  records : List (ConsumerRecord P K V)

/-- With `auto.offset.reset` at `earliest`. -/
def Consumer.new (committed : P → Option Nat) : Consumer P K V where
  position p := (committed p).getD 0
  countMap := ∅
  records := []

/-- A record that process number `process` came to, and what it printed then. -/
structure Turn (P K V : Type) where
  process : Nat
  record : ConsumerRecord P K V
  printed : Printed K
deriving DecidableEq, Repr

/-- `consumer` is `none` while the process is down. -/
structure State (P K V : Type) where
  committed : P → Option Nat
  starts : Nat
  consumer : Option (Consumer P K V)
  turns : List (Turn P K V)

inductive Action where
  | start
  | poll
  | turn
  | throw
  | autoCommit
  | stop

/-- An auto-commit may be as late as it likes, but is never ahead of the position. -/
inductive Step (inputTopic : Topic P K V) (s : State P K V) : Action → State P K V → Prop where
  | start (hdown : s.consumer = none) :
      Step inputTopic s .start { s with
        starts := s.starts + 1
        consumer := some (.new s.committed) }
  | poll (c : Consumer P K V) (records : ConsumerRecords P K V) (hc : s.consumer = some c)
      (hrest : c.records = []) (hf : Fetched inputTopic c.position records) :
      Step inputTopic s .poll { s with
        consumer := some { c with
          position := advance c.position records
          records := records.all } }
  | turn (c : Consumer P K V) (record : ConsumerRecord P K V) (rest : List (ConsumerRecord P K V))
      (entries : List (K × Int)) (printed : Printed K) (hc : s.consumer = some c)
      (hrecords : c.records = record :: rest)
      (hentries : entries ~ entrySet (compute c.countMap record.key))
      (hprinted : printMax entries = some printed) :
      Step inputTopic s .turn { s with
        consumer := some { c with countMap := compute c.countMap record.key, records := rest }
        turns := s.turns ++ [⟨s.starts, record, printed⟩] }
  | throw (c : Consumer P K V) (record : ConsumerRecord P K V) (rest : List (ConsumerRecord P K V))
      (entries : List (K × Int)) (hc : s.consumer = some c) (hrecords : c.records = record :: rest)
      (hentries : entries ~ entrySet (compute c.countMap record.key))
      (hthrow : printMax entries = none) :
      Step inputTopic s .throw { s with consumer := none }
  | autoCommit (c : Consumer P K V) (offsets : P → Nat) (hc : s.consumer = some c)
      (hlow : ∀ p, (s.committed p).getD 0 ≤ offsets p) (hhigh : ∀ p, offsets p ≤ c.position p) :
      Step inputTopic s .autoCommit { s with committed := fun p => some (offsets p) }
  | stop (c : Consumer P K V) (hc : s.consumer = some c) :
      Step inputTopic s .stop { s with consumer := none }

/-- A new group: nothing is committed, and its consumer was never started. -/
def system (inputTopic : Topic P K V) : System (State P K V) Action where
  start s := s = { committed := fun _ => none, starts := 0, consumer := none, turns := [] }
  step := Step inputTopic

/-! ## Counts -/

/-- The map has the number of occurrences of every key in `keys`. -/
def Counts (countMap : CountMap K) (keys : List K) : Prop :=
  ∀ key, countMap.lookup key = if key ∈ keys then some (wrap 32 (keys.count key)) else none

theorem counts_nil : Counts (∅ : CountMap K) [] := by
  intro key
  simp

theorem Counts.compute {countMap : CountMap K} {keys : List K} (h : Counts countMap keys)
    (key : K) : Counts (compute countMap key) (keys ++ [key]) := by
  intro k
  unfold PopularTopicConsumer.compute
  rcases eq_or_ne k key with rfl | hne
  · rw [AList.lookup_insert, if_pos (by simp), h k, List.count_append, List.count_singleton_self]
    split
    case h_1 hnone =>
      have hkey : k ∉ keys := by
        intro hkey
        simp [hkey] at hnone
      rw [List.count_eq_zero_of_not_mem hkey]
      rfl
    case h_2 v hsome =>
      obtain ⟨-, rfl⟩ : k ∈ keys ∧ wrap 32 (keys.count k) = v := by simpa using hsome
      rw [wrap_wrap_add]
      rfl
  · rw [AList.lookup_insert_ne hne, h k]
    simp [hne, hne.symm]

theorem Counts.mem_entrySet {countMap : CountMap K} {keys : List K} (h : Counts countMap keys)
    (key : K) (n : Int) :
    (key, n) ∈ entrySet countMap ↔ key ∈ keys ∧ n = wrap 32 (keys.count key) := by
  have hentry : (key, n) ∈ entrySet countMap ↔ countMap.lookup key = some n := by
    rw [← Option.mem_def, AList.mem_lookup_iff, entrySet]
    simp only [List.mem_map, Prod.mk.injEq]
    constructor
    · rintro ⟨⟨key', n'⟩, hmem, rfl, rfl⟩
      exact hmem
    · exact fun hmem => ⟨⟨key, n⟩, hmem, rfl, rfl⟩
  rw [hentry, h key]
  split
  · rename_i hkey
    rw [Option.some.injEq]
    exact ⟨fun heq => ⟨hkey, heq.symm⟩, fun heq => heq.2.symm⟩
  · rename_i hkey
    exact ⟨nofun, fun heq => absurd heq.1 hkey⟩

/-- `printed` has the greatest of the numbers `count` of the `keys`, and the keys that have it. -/
structure MostPopular (count : K → Int) (keys : List K) (printed : Printed K) : Prop where
  attained : ∃ key ∈ keys, count key = printed.occurrences
  le : ∀ key ∈ keys, count key ≤ printed.occurrences
  mem_keys : ∀ key, key ∈ printed.keys ↔ key ∈ keys ∧ count key = printed.occurrences

theorem Counts.mostPopular {countMap : CountMap K} {keys : List K} (h : Counts countMap keys)
    {entries : List (K × Int)} (hentries : entries ~ entrySet countMap) {printed : Printed K}
    (hprinted : printMax entries = some printed) :
    MostPopular (fun key => wrap 32 (keys.count key)) keys printed := by
  have hmem (key : K) (n : Int) : (key, n) ∈ entries ↔ key ∈ keys ∧ n = wrap 32 (keys.count key) :=
    hentries.mem_iff.trans (h.mem_entrySet key n)
  obtain ⟨max, hmax, rfl⟩ := Option.map_eq_some_iff.mp hprinted
  rw [List.max?_eq_some_iff] at hmax
  simp only [List.mem_map, Prod.exists, exists_eq_right, hmem] at hmax
  obtain ⟨⟨key, hkey, hcount⟩, hle⟩ := hmax
  constructor
  · exact ⟨key, hkey, hcount.symm⟩
  · exact fun k hk => hle _ ⟨k, hk, rfl⟩
  · intro k
    simp only [List.mem_map, List.mem_filter, decide_eq_true_eq]
    constructor
    · rintro ⟨⟨k', n⟩, ⟨hn, hmax⟩, rfl⟩
      obtain ⟨hk, hn⟩ := (hmem k' n).mp hn
      exact ⟨hk, hn.symm.trans hmax⟩
    · rintro ⟨hk, hn⟩
      exact ⟨(k, max), ⟨(hmem k max).mpr ⟨hk, hn.symm⟩, rfl⟩, rfl⟩

/-! ## Runs -/

/-- The records that process number `process` has come to. -/
def handledBy (process : Nat) (turns : List (Turn P K V)) : List (ConsumerRecord P K V) :=
  (turns.filter fun turn => turn.process = process).map Turn.record

/-- What is printed counts the records since the start of the process, each of them once. -/
def CountsSinceStart (pre : List (Turn P K V)) (turn : Turn P K V) : Prop :=
  (handledBy turn.process (pre ++ [turn])).Nodup ∧
    MostPopular
      (fun key => wrap 32
        (((handledBy turn.process (pre ++ [turn])).map ConsumerRecord.key).count key))
      ((handledBy turn.process (pre ++ [turn])).map ConsumerRecord.key) turn.printed

structure ConsumerOk (handled : List (ConsumerRecord P K V)) (c : Consumer P K V) : Prop where
  counts : Counts c.countMap (handled.map ConsumerRecord.key)
  nodup : (handled ++ c.records).Nodup
  lt : ∀ r ∈ handled ++ c.records, r.offset < c.position r.partition

/-- The consumer has counted what it handled since its start. -/
structure Inv (s : State P K V) : Prop where
  process_le : ∀ turn ∈ s.turns, turn.process ≤ s.starts
  consumer : ∀ c, s.consumer = some c → ConsumerOk (handledBy s.starts s.turns) c
  each : Each CountsSinceStart s.turns

variable {inputTopic : Topic P K V} {s t : State P K V} {c : Consumer P K V}

omit [DecidableEq K] in
theorem handledBy_append (process : Nat) (turns : List (Turn P K V)) (turn : Turn P K V)
    (h : turn.process = process) :
    handledBy process (turns ++ [turn]) = handledBy process turns ++ [turn.record] := by
  simp [handledBy, h]

theorem ConsumerOk.poll [DecidableEq P] {handled : List (ConsumerRecord P K V)}
    (h : ConsumerOk handled c) (hrest : c.records = []) {records : ConsumerRecords P K V}
    (hf : Fetched inputTopic c.position records) :
    ConsumerOk handled { c with
      position := advance c.position records
      records := records.all } := by
  have hlt := h.lt
  have hnodup := h.nodup
  rw [hrest, List.append_nil] at hlt hnodup
  constructor
  · exact h.counts
  · refine hnodup.append hf.all_nodup fun r hr hall => ?_
    have hhandled := hlt r hr
    have hpolled := (hf.mem_all hall).2.1
    omega
  · intro r hr
    rcases List.mem_append.mp hr with hr | hr
    · exact Nat.lt_of_lt_of_le (hlt r hr) (hf.le_advance r.partition)
    · exact (hf.mem_all hr).2.2

theorem Inv.start (h : Inv s) :
    Inv { s with starts := s.starts + 1, consumer := some (.new s.committed) } := by
  have hnil : handledBy (s.starts + 1) s.turns = [] := by
    unfold handledBy
    rw [List.map_eq_nil_iff, List.filter_eq_nil_iff]
    intro turn hturn
    have := h.process_le turn hturn
    simp only [decide_eq_true_eq]
    omega
  refine ⟨fun turn hturn => Nat.le_succ_of_le (h.process_le turn hturn), ?_, h.each⟩
  rintro _ ⟨⟩
  rw [hnil]
  exact ⟨counts_nil, List.nodup_nil, nofun⟩

theorem Inv.turn (h : Inv s) {record : ConsumerRecord P K V} {rest : List (ConsumerRecord P K V)}
    {entries : List (K × Int)} {printed : Printed K} (hc : s.consumer = some c)
    (hrecords : c.records = record :: rest)
    (hentries : entries ~ entrySet (compute c.countMap record.key))
    (hprinted : printMax entries = some printed) :
    Inv { s with
      consumer := some { c with countMap := compute c.countMap record.key, records := rest }
      turns := s.turns ++ [⟨s.starts, record, printed⟩] } := by
  have hok := h.consumer c hc
  have hhandled := handledBy_append s.starts s.turns ⟨s.starts, record, printed⟩ rfl
  have hcounts := hok.counts.compute record.key
  have hnodup := hok.nodup
  rw [hrecords, ← List.singleton_append, ← List.append_assoc] at hnodup
  rw [← List.map_singleton (f := ConsumerRecord.key), ← List.map_append] at hcounts
  constructor
  · exact List.forall_mem_append.mpr ⟨h.process_le, List.forall_mem_singleton.mpr le_rfl⟩
  · rintro _ ⟨⟩
    simp only [hhandled]
    refine ⟨hcounts, hnodup, fun r hr => hok.lt r ?_⟩
    rwa [hrecords, ← List.singleton_append, ← List.append_assoc]
  · refine each_append_singleton.mpr ⟨h.each, ?_⟩
    unfold CountsSinceStart
    simp only [hhandled]
    exact ⟨hnodup.of_append_left, hcounts.mostPopular hentries hprinted⟩

theorem inv_of_reachable [DecidableEq P] (h : (system inputTopic).Reachable s) : Inv s := by
  refine h.invariant Inv ?_ ?_
  · rintro s rfl
    exact ⟨nofun, nofun, Each.nil⟩
  · intro s a t hs hstep
    cases hstep with
    | start hdown => exact hs.start
    | poll c records hc hrest hf =>
      refine ⟨hs.process_le, ?_, hs.each⟩
      rintro _ ⟨⟩
      exact (hs.consumer c hc).poll hrest hf
    | turn c record rest entries printed hc hrecords hentries hprinted =>
      exact hs.turn hc hrecords hentries hprinted
    | throw => exact ⟨hs.process_le, nofun, hs.each⟩
    | autoCommit => exact ⟨hs.process_le, hs.consumer, hs.each⟩
    | stop => exact ⟨hs.process_le, nofun, hs.each⟩

/-! ## What is printed -/

variable [DecidableEq P] [DecidableEq V]

/-- What is printed counts the records of the topic that were delivered to the group so far. -/
def CountsTopic (pre : List (Turn P K V)) (turn : Turn P K V) : Prop :=
  MostPopular (fun key =>
      ((((pre ++ [turn]).map Turn.record).dedup.map ConsumerRecord.key).count key : Int))
    (((pre ++ [turn]).map Turn.record).dedup.map ConsumerRecord.key) turn.printed

omit [DecidableEq K] [DecidableEq P] [DecidableEq V] in
theorem handledBy_of_same {pre : List (Turn P K V)} {turn : Turn P K V}
    (hsame : ∀ before ∈ pre, before.process = turn.process) :
    handledBy turn.process (pre ++ [turn]) = (pre ++ [turn]).map Turn.record := by
  unfold handledBy
  rw [List.filter_eq_self.mpr]
  exact List.forall_mem_append.mpr ⟨fun before hbefore => decide_eq_true (hsame before hbefore),
    List.forall_mem_singleton.mpr (decide_eq_true rfl)⟩

/-- In every run, with restarts and auto-commits at any moment: what is printed counts the
records since the last start. That is the whole topic as long as there was no other. -/
theorem counts_since_start (h : (system inputTopic).Reachable s) :
    Each (fun pre turn => CountsSinceStart pre turn ∧
      ((∀ before ∈ pre, before.process = turn.process) →
        (∀ key, ((pre ++ [turn]).map fun before => before.record.key).count key < 2 ^ 31) →
          CountsTopic pre turn)) s.turns := by
  intro pre turn post heq
  have hsince := (inv_of_reachable h).each pre turn post heq
  refine ⟨hsince, fun hsame hlt => ?_⟩
  obtain ⟨hnodup, hpopular⟩ := hsince
  rw [handledBy_of_same hsame] at hnodup hpopular
  unfold CountsTopic
  rw [hnodup.dedup]
  have hcount (key : K) : wrap 32 ((((pre ++ [turn]).map Turn.record).map
      ConsumerRecord.key).count key) = ((((pre ++ [turn]).map Turn.record).map
      ConsumerRecord.key).count key : Int) := by
    have hkey := hlt key
    rw [List.map_map]
    exact wrap_of_int (by omega) (Int.ofNat_lt.mpr hkey)
  simpa only [hcount] using hpopular

/-! ## Two records of one key -/

def first : ConsumerRecord Unit Nat Unit := ⟨(), 0, 7, ()⟩

def second : ConsumerRecord Unit Nat Unit := ⟨(), 1, 7, ()⟩

def twoRecords : Topic Unit Nat Unit where
  log _ := [first, second]
  increasing _ := by simp [OffsetLog.Increasing, first, second]
  partition _ := by simp

def polled (records : List (ConsumerRecord Unit Nat Unit)) (h : records ≠ []) :
    ConsumerRecords Unit Nat Unit where
  partitions := [()]
  records _ := records
  nodup := List.nodup_singleton ()
  mem_partitions := by simpa using h

theorem counts_since_start_two : ∃ s : State Unit Nat Unit, (system twoRecords).Reachable s ∧
    s.turns = [⟨1, first, ⟨1, [7]⟩⟩, ⟨1, second, ⟨2, [7]⟩⟩] ∧
    CountsTopic [⟨1, first, ⟨1, [7]⟩⟩] ⟨1, second, ⟨2, [7]⟩⟩ := by
  have h0 : (system twoRecords).Reachable ⟨fun _ => none, 0, none, []⟩ := .start rfl
  have h1 := h0.step (.start rfl)
  have h2 := h1.step (.poll _ (polled [first, second] (by simp)) rfl rfl (fun _ => List.prefix_rfl))
  have h3 := h2.step (.turn _ first [second] _ ⟨1, [7]⟩ rfl rfl List.Perm.rfl rfl)
  have h4 := h3.step (.turn _ second [] _ ⟨2, [7]⟩ rfl rfl List.Perm.rfl rfl)
  refine ⟨_, h4, rfl, (counts_since_start h4 [_] _ [] rfl).2 (by simp) fun key => ?_⟩
  exact Nat.lt_of_le_of_lt List.count_le_length (by decide)

theorem restarted_counts_anew : ¬ ∀ s : State Unit Nat Unit,
    (system twoRecords).Reachable s → Each CountsTopic s.turns := by
  intro hall
  have h0 : (system twoRecords).Reachable ⟨fun _ => none, 0, none, []⟩ := .start rfl
  have h1 := h0.step (.start rfl)
  have h2 := h1.step (.poll _ (polled [first] (by simp)) rfl rfl (fun _ => ⟨[second], rfl⟩))
  have h3 := h2.step (.turn _ first [] _ ⟨1, [7]⟩ rfl rfl List.Perm.rfl rfl)
  have h4 := h3.step (.autoCommit _ (fun _ => 1) rfl (fun _ => Nat.zero_le _) (fun _ => le_rfl))
  have h5 := h4.step (.stop _ rfl)
  have h6 := h5.step (.start rfl)
  have h7 := h6.step (.poll _ (polled [second] (by simp)) rfl rfl (fun _ => List.prefix_rfl))
  have h8 := h7.step (.turn _ second [] _ ⟨1, [7]⟩ rfl rfl List.Perm.rfl rfl)
  have hcounts := hall _ h8 [⟨1, first, ⟨1, [7]⟩⟩] ⟨2, second, ⟨1, [7]⟩⟩ [] rfl
  have hle := hcounts.le 7 (by decide)
  exact absurd hle (by decide)

end Nsds.Kafka.PopularTopicConsumer
