import Mathlib.Logic.Function.Basic
import Nsds.Lib.OffsetLog

/-!
# Topics and polls

What a consumer sees of a topic: the records of every partition in the order of
their offsets, some more of them with every poll.
-/

namespace Nsds.Kafka

open OffsetLog

structure ConsumerRecord (P K V : Type) where
  partition : P
  offset : Nat
  key : K
  value : V
deriving DecidableEq, Repr

structure Topic (P K V : Type) where
  log : P → List (ConsumerRecord P K V)
  increasing : ∀ p, Increasing ConsumerRecord.offset (log p)
  partition : ∀ p, ∀ r ∈ log p, r.partition = p

/-- `ConsumerRecords`: `partitions()` are those that `records(partition)` is not empty for. -/
structure ConsumerRecords (P K V : Type) where
  partitions : List P
  records : P → List (ConsumerRecord P K V)
  nodup : partitions.Nodup
  mem_partitions : ∀ p, p ∈ partitions ↔ records p ≠ []

variable {P K V : Type} {topic : Topic P K V} {records : ConsumerRecords P K V}
  {position : P → Nat}

/-- The order in which `for (record : records)` takes them: partition by partition. -/
def ConsumerRecords.all (records : ConsumerRecords P K V) : List (ConsumerRecord P K V) :=
  records.partitions.flatMap records.records

/-- The map that is committed: `lastOffset + 1` for every partition of `records.partitions()`,
with `lastOffset` from `partitionRecords.get(partitionRecords.size() - 1)`. -/
def ConsumerRecords.offsets [DecidableEq P] (records : ConsumerRecords P K V) (p : P) :
    Option Nat :=
  if p ∈ records.partitions then
    (records.records p).getLast?.map fun lastRecord => lastRecord.offset + 1
  else none

/-- What `poll` may return to a consumer at `position`: for every partition a first part
of what is there, nothing at all included. -/
def Fetched (topic : Topic P K V) (position : P → Nat) (records : ConsumerRecords P K V) : Prop :=
  ∀ p, records.records p <+: since ConsumerRecord.offset (position p) (topic.log p)

/-- The position after the records of a poll. -/
def advance (position : P → Nat) (records : ConsumerRecords P K V) (p : P) : Nat :=
  match (records.records p).getLast? with
  | none => position p
  | some lastRecord => lastRecord.offset + 1

/-! ## What a poll fetched -/

theorem Fetched.mem_log (h : Fetched topic position records) {p : P} {r : ConsumerRecord P K V}
    (hr : r ∈ records.records p) : r ∈ topic.log p ∧ position p ≤ r.offset :=
  mem_since.mp ((h p).mem hr)

theorem Fetched.partition_eq (h : Fetched topic position records) {p : P}
    {r : ConsumerRecord P K V} (hr : r ∈ records.records p) : r.partition = p :=
  topic.partition p r (h.mem_log hr).1

theorem Fetched.le_advance (h : Fetched topic position records) (p : P) :
    position p ≤ advance position records p := by
  unfold advance
  split
  · exact Nat.le_refl _
  · rename_i last hlast
    have := (h.mem_log (List.mem_of_getLast? hlast)).2
    omega

theorem Fetched.range_advance (h : Fetched topic position records) (p : P) :
    range ConsumerRecord.offset (position p) (advance position records p) (topic.log p) =
      records.records p := by
  unfold advance
  split
  · rename_i hnone
    rw [range_self, List.getLast?_eq_none_iff.mp hnone]
  · rename_i last hlast
    exact (topic.increasing p).range_of_batch (h p) hlast

theorem offsets_getD [DecidableEq P] (p : P) :
    (records.offsets p).getD (position p) = advance position records p := by
  unfold ConsumerRecords.offsets advance
  split
  · cases (records.records p).getLast? <;> rfl
  · rename_i hp
    have hnil : records.records p = [] := by
      by_contra h
      exact hp ((records.mem_partitions p).mpr h)
    simp [hnil]

theorem filter_flatMap_of_nodup {α β : Type} [DecidableEq β] (key : α → β) (f : β → List α)
    (hkey : ∀ b, ∀ a ∈ f b, key a = b) {bs : List β} (hnodup : bs.Nodup) (b : β) :
    (bs.flatMap f).filter (fun a => key a = b) = if b ∈ bs then f b else [] := by
  induction bs with
  | nil => simp
  | cons c bs ih =>
    obtain ⟨hc, hbs⟩ := List.nodup_cons.mp hnodup
    rw [List.flatMap_cons, List.filter_append, ih hbs]
    by_cases hb : b = c
    · subst hb
      rw [List.filter_eq_self.mpr fun a ha => decide_eq_true (hkey b a ha), if_neg hc]
      simp
    · rw [List.filter_eq_nil_iff.mpr]
      · simp [hb]
      · intro a ha
        rw [hkey c a ha]
        simpa using Ne.symm hb

theorem nodup_of_filter_nodup {α β : Type} [DecidableEq β] (key : α → β) {l : List α}
    (h : ∀ b, (l.filter fun a => key a = b).Nodup) : l.Nodup := by
  induction l with
  | nil => exact List.nodup_nil
  | cons a l ih =>
    refine List.nodup_cons.mpr ⟨?_, ih fun b => (h b).sublist ?_⟩
    · have ha := h (key a)
      rw [List.filter_cons_of_pos (by simp)] at ha
      intro hmem
      exact (List.nodup_cons.mp ha).1 (List.mem_filter.mpr ⟨hmem, by simp⟩)
    · exact (List.sublist_cons_self a l).filter _

theorem Fetched.filter_all [DecidableEq P] (h : Fetched topic position records) (p : P) :
    records.all.filter (fun r => r.partition = p) = records.records p := by
  rw [ConsumerRecords.all,
    filter_flatMap_of_nodup _ _ (fun _ _ hr => h.partition_eq hr) records.nodup]
  split
  · rfl
  · rename_i hp
    by_contra hne
    exact hp ((records.mem_partitions p).mpr (Ne.symm hne))

theorem Fetched.all_nodup [DecidableEq P] (h : Fetched topic position records) :
    records.all.Nodup := by
  apply nodup_of_filter_nodup ConsumerRecord.partition
  intro p
  rw [h.filter_all p]
  rw [← h.range_advance p]
  exact (topic.increasing p).range.nodup

theorem Fetched.mem_all (h : Fetched topic position records) {r : ConsumerRecord P K V}
    (hr : r ∈ records.all) : r ∈ topic.log r.partition ∧ position r.partition ≤ r.offset ∧
      r.offset < advance position records r.partition := by
  obtain ⟨p, -, hp⟩ := List.mem_flatMap.mp hr
  have hpart := h.partition_eq hp
  subst hpart
  rw [← h.range_advance] at hp
  exact mem_range.mp hp

theorem all_eq_nil_iff : records.all = [] ↔ ∀ p, records.records p = [] := by
  rw [ConsumerRecords.all, List.flatMap_eq_nil_iff]
  constructor
  · intro h p
    by_contra hp
    exact hp (h p ((records.mem_partitions p).mpr hp))
  · intro h p _
    exact h p

end Nsds.Kafka
