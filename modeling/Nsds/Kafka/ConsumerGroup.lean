import Mathlib.Data.List.Nodup
import Nsds.Kafka.Records

/-!
# Consumer groups

The brokers' side of a group whose members share the partitions of a topic, and
what a member knows of its own. A member learns of a reassignment only when it
rebalances, or when a commit fails.
-/

namespace Nsds.Kafka

open OffsetLog

/-- The generation of a partition counts how often it was assigned. -/
structure Group (P M : Type) where
  committed : P → Option Nat
  logEnd : P → Nat
  owner : P → Option M
  generation : P → Nat

/-- The generation and the position of every partition that a member takes for its own. -/
abbrev Assignment (P : Type) := P → Option (Nat × Nat)

/-- The part of the topic that is there when the logs end at `logEnd`. -/
def Topic.upTo {P K V : Type} (topic : Topic P K V) (logEnd : P → Nat) : Topic P K V where
  log p := (topic.log p).filter fun r => r.offset < logEnd p
  increasing p := (topic.increasing p).sublist List.filter_sublist
  partition p r hr := topic.partition p r (List.mem_filter.mp hr).1

variable {P K V M : Type}

/-- The brokers take `m` for the owner of `p` since generation `g`. -/
def Group.Current (group : Group P M) (m : M) (p : P) (g : Nat) : Prop :=
  group.owner p = some m ∧ group.generation p = g

/-- Where a new owner starts, with `auto.offset.reset` at `latest`. -/
def Group.resume (group : Group P M) (p : P) : Nat := (group.committed p).getD (group.logEnd p)

/-- A rebalance of `m`: it keeps what is still its own. -/
def Group.rebalance [DecidableEq M] (group : Group P M) (m : M) (assigned : Assignment P) :
    Assignment P := fun p =>
  if group.owner p = some m then
    match assigned p with
    | some (g, position) =>
      if g = group.generation p then some (g, position)
      else some (group.generation p, group.resume p)
    | none => some (group.generation p, group.resume p)
  else none

/-- Where the consumer goes on in a partition. -/
def position (assigned : Assignment P) (p : P) : Nat :=
  match assigned p with
  | some (_, position) => position
  | none => 0

/-- `poll` of a member: records of its partitions only, and positions behind them. -/
def Polled (topic : Topic P K V) (group : Group P M) (assigned : Assignment P)
    (records : ConsumerRecords P K V) (assigned' : Assignment P) : Prop :=
  Fetched (topic.upTo group.logEnd) (position assigned) records ∧
  (∀ p, assigned p = none → records.records p = []) ∧
  assigned' = fun p => (assigned p).map fun a => (a.1, advance (position assigned) records p)

/-- `commitSync` throws unless the member still owns all of its partitions. -/
def Group.Accepts (group : Group P M) (m : M) (assigned : Assignment P) : Prop :=
  ∀ p g position, assigned p = some (g, position) → group.Current m p g

/-- The positions of the consumer become the committed offsets. -/
def Group.commit (group : Group P M) (assigned : Assignment P) : Group P M :=
  { group with
    committed := fun p =>
      match assigned p with
      | some (_, position) => some position
      | none => group.committed p }

/-- What tells one record of a topic from another. -/
def key (r : ConsumerRecord P K V) : P × Nat := (r.partition, r.offset)

variable {topic : Topic P K V} {group : Group P M} {assigned assigned' : Assignment P}
  {records : ConsumerRecords P K V}

theorem position_some {p : P} {g pos : Nat} (h : assigned p = some (g, pos)) :
    position assigned p = pos := by
  unfold position
  rw [h]

theorem Group.rebalance_some [DecidableEq M] {m : M} {p : P} {g pos : Nat}
    (h : group.rebalance m assigned p = some (g, pos)) :
    group.Current m p g ∧ (assigned p = some (g, pos) ∨ pos = group.resume p) := by
  unfold Group.rebalance at h
  split at h
  case isFalse => cases h
  case isTrue howner =>
    split at h
    · rename_i g' pos' hassigned
      split at h
      · rename_i hg
        cases h
        exact ⟨⟨howner, hg.symm⟩, Or.inl hassigned⟩
      · cases h
        exact ⟨⟨howner, rfl⟩, Or.inr rfl⟩
    · cases h
      exact ⟨⟨howner, rfl⟩, Or.inr rfl⟩

theorem Group.le_resume {p : P} {o : Nat} (h : group.committed p = some o) :
    o ≤ group.resume p := by
  simp [Group.resume, h]

theorem Group.commit_some {p : P} {g pos : Nat} (h : assigned p = some (g, pos)) :
    (group.commit assigned).committed p = some pos := by
  simp [Group.commit, h]

theorem Group.commit_none {p : P} (h : assigned p = none) :
    (group.commit assigned).committed p = group.committed p := by
  simp [Group.commit, h]

theorem Polled.mem (h : Polled topic group assigned records assigned')
    {r : ConsumerRecord P K V} (hr : r ∈ records.all) :
    ∃ g pos pos', assigned r.partition = some (g, pos) ∧ assigned' r.partition = some (g, pos') ∧
      pos ≤ r.offset ∧ r.offset < pos' := by
  obtain ⟨hf, hnone, rfl⟩ := h
  obtain ⟨-, hlow, hhigh⟩ := hf.mem_all hr
  obtain ⟨p, -, hp⟩ := List.mem_flatMap.mp hr
  have hpart := hf.partition_eq hp
  subst hpart
  cases ha : assigned r.partition with
  | none => rw [hnone _ ha] at hp; cases hp
  | some a =>
    rw [position_some ha] at hlow
    exact ⟨a.1, a.2, _, rfl, by simp [ha], hlow, hhigh⟩

theorem Polled.assigned_some (h : Polled topic group assigned records assigned') {p : P}
    {g pos' : Nat} (ha : assigned' p = some (g, pos')) :
    ∃ pos, assigned p = some (g, pos) ∧ pos ≤ pos' := by
  obtain ⟨hf, -, rfl⟩ := h
  obtain ⟨⟨g', pos⟩, hpos, heq⟩ := Option.map_eq_some_iff.mp ha
  cases heq
  have hle := hf.le_advance p
  rw [position_some hpos] at hle
  exact ⟨pos, hpos, hle⟩

theorem Polled.nodup [DecidableEq P] (h : Polled topic group assigned records assigned') :
    (records.all.map key).Nodup := by
  apply List.Nodup.map_on _ h.1.all_nodup
  intro r hr r' hr' heq
  obtain ⟨hpart, hoffset⟩ := Prod.mk.inj heq
  have hlog := (h.1.mem_all hr).1
  have hlog' := (h.1.mem_all hr').1
  rw [← hpart] at hlog'
  exact ((topic.upTo group.logEnd).increasing _).eq_of_offset_eq hlog hlog' hoffset

end Nsds.Kafka
