import Nsds.Kafka.ConsumerGroup
import Nsds.Lib.Transition

/-!
# `AtMostOncePrinter.java`

The members of one group poll, commit, and print what they committed. A member
can crash at any time, and lose its partitions to another one at any time.
-/

namespace Nsds.Kafka.AtMostOncePrinter

open Transition

def threshold : Int := 500

/-- What a consumer does next: `poll`, `commitSync`, or a turn of the `for` loop. -/
inductive Pc (P K : Type) where
  | poll
  | commitSync (records : ConsumerRecords P K (Option Int))
  | print (rest : List (ConsumerRecord P K (Option Int)))

/-- A process that is up. -/
structure Consumer (P K : Type) where
  assigned : Assignment P
  pc : Pc P K

/-- `consumer m` is `none` while the process of `m` is down. `polled m` is everything that
`m` got from its polls. -/
structure State (P K M : Type) where
  group : Group P M
  consumer : M → Option (Consumer P K)
  printed : List (M × ConsumerRecord P K (Option Int))
  polled : M → List (ConsumerRecord P K (Option Int))

inductive Event where
  | produce
  | assign
  | revoke
  | start
  | rebalance
  | poll
  | commitSync
  | commitFailed
  | print
  | nullValue
  | again
  | crash
deriving DecidableEq

variable {P K M : Type}

def State.set [DecidableEq M] (s : State P K M) (m : M) (c : Option (Consumer P K)) : State P K M :=
  { s with consumer := Function.update s.consumer m c }

/-- The members take their turns in any order, and the brokers reassign partitions at any time. -/
inductive Step [DecidableEq P] [DecidableEq M] (topic : Topic P K (Option Int)) :
    State P K M → Event → State P K M → Prop where
  | produce (s : State P K M) (p : P) (n : Nat) (hn : s.group.logEnd p ≤ n) :
      Step topic s .produce
        { s with group := { s.group with logEnd := Function.update s.group.logEnd p n } }
  | assign (s : State P K M) (p : P) (m : M) (hfree : s.group.owner p = none) :
      Step topic s .assign
        { s with group := { s.group with
            owner := Function.update s.group.owner p (some m)
            generation := Function.update s.group.generation p (s.group.generation p + 1) } }
  | revoke (s : State P K M) (p : P) :
      Step topic s .revoke
        { s with group := { s.group with owner := Function.update s.group.owner p none } }
  | start (s : State P K M) (m : M) (hm : s.consumer m = none) :
      Step topic s .start (s.set m (some ⟨fun _ => none, .poll⟩))
  | rebalance (s : State P K M) (m : M) (assigned : Assignment P)
      (hm : s.consumer m = some ⟨assigned, .poll⟩) :
      Step topic s .rebalance (s.set m (some ⟨s.group.rebalance m assigned, .poll⟩))
  | poll (s : State P K M) (m : M) (assigned assigned' : Assignment P)
      (records : ConsumerRecords P K (Option Int)) (hm : s.consumer m = some ⟨assigned, .poll⟩)
      (hp : Polled topic s.group assigned records assigned') :
      Step topic s .poll
        { s.set m (some ⟨assigned', .commitSync records⟩) with
          polled := Function.update s.polled m (s.polled m ++ records.all) }
  | commitSync (s : State P K M) (m : M) (assigned : Assignment P)
      (records : ConsumerRecords P K (Option Int))
      (hm : s.consumer m = some ⟨assigned, .commitSync records⟩) (ha : s.group.Accepts m assigned) :
      Step topic s .commitSync
        { s.set m (some ⟨assigned, .print records.all⟩) with group := s.group.commit assigned }
  | commitFailed (s : State P K M) (m : M) (assigned : Assignment P)
      (records : ConsumerRecords P K (Option Int))
      (hm : s.consumer m = some ⟨assigned, .commitSync records⟩)
      (ha : ¬ s.group.Accepts m assigned) :
      Step topic s .commitFailed (s.set m none)
  | print (s : State P K M) (m : M) (assigned : Assignment P)
      (record : ConsumerRecord P K (Option Int)) (rest : List (ConsumerRecord P K (Option Int)))
      (value : Int) (hm : s.consumer m = some ⟨assigned, .print (record :: rest)⟩)
      (hv : record.value = some value) :
      Step topic s .print
        { s.set m (some ⟨assigned, .print rest⟩) with
          printed := if value > threshold then s.printed ++ [(m, record)] else s.printed }
  -- `record.value() > threshold` unboxes the value.
  | nullValue (s : State P K M) (m : M) (assigned : Assignment P)
      (record : ConsumerRecord P K (Option Int)) (rest : List (ConsumerRecord P K (Option Int)))
      (hm : s.consumer m = some ⟨assigned, .print (record :: rest)⟩) (hv : record.value = none) :
      Step topic s .nullValue (s.set m none)
  | again (s : State P K M) (m : M) (assigned : Assignment P)
      (hm : s.consumer m = some ⟨assigned, .print []⟩) :
      Step topic s .again (s.set m (some ⟨assigned, .poll⟩))
  | crash (s : State P K M) (m : M) (c : Consumer P K) (hm : s.consumer m = some c) :
      Step topic s .crash (s.set m none)

/-- All processes are down, and nothing is printed. The group may be in any state. -/
def system (M : Type) [DecidableEq P] [DecidableEq M] (topic : Topic P K (Option Int)) :
    System (State P K M) Event where
  start s := (∀ m, s.consumer m = none) ∧ s.printed = [] ∧ ∀ m, s.polled m = []
  step := Step topic

end Nsds.Kafka.AtMostOncePrinter
