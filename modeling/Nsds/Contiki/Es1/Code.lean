import Nsds.Lib.EventLoop

/-!
# `Contiki-NG/lab/es1/es1.c`

A producer and a consumer share an array of ten. The intervals of the timers do not matter,
as they may expire at any time.
-/

namespace Nsds.Es1

open EventLoop Transition

inductive Proc where
  | producer
  | consumer
deriving DecidableEq, Repr

/-- The processes do not look at the event that they get. -/
inductive Event where
  | init
  | timer
  | added
  | popped
  | other
deriving DecidableEq, Repr

inductive Pc where
  | begin
  | waitEvent
  | waitEventUntil
deriving DecidableEq, Repr

/-- The queue with its counter, where the processes wait, and what was produced. -/
structure Shared where
  producerAt : Pc
  consumerAt : Pc
  queue : List Int
  numEl : Int
  produced : List Int
  popped : List Int
deriving DecidableEq, Repr

/-! Accesses to an array are not allowed out of its bounds. -/

/-- `none` is outside of the array. -/
def read (queue : List Int) (i : Int) : Option Int :=
  if 0 ≤ i then queue[i.toNat]? else none

def write (queue : List Int) (i x : Int) : Option (List Int) :=
  if 0 ≤ i ∧ i < queue.length then some (queue.set i.toNat x) else none

/-- The loop that moves the elements to the front, up to `numEl`. -/
def dequeue (queue : List Int) (numEl : Nat) : Option (List Int) :=
  (List.range numEl).foldlM (fun queue (i : Nat) => do write queue i (← read queue (i + 1))) queue

/-- `random` is what `rand()` returns after the wait. -/
def producer (random : Nat) (expired : Bool) (s : Shared) : Option (Turn Proc Event Shared) :=
  match s.producerAt with
  | .waitEventUntil =>
    if expired ∧ s.numEl < 10 then do
      let newData : Int := random % 10
      let queue ← write s.queue s.numEl newData
      return {
        shared := {
          s with queue := queue, numEl := s.numEl + 1, produced := s.produced ++ [newData] }
        setTimer := true
        posted := [(.consumer, .added)] }
    else return { shared := s, setTimer := false, posted := [] }
  | _ =>
    return {
      shared := { s with producerAt := .waitEventUntil, numEl := 0 }
      setTimer := true
      posted := [] }

def consumer (expired : Bool) (s : Shared) : Option (Turn Proc Event Shared) :=
  match s.consumerAt with
  | .begin =>
    return { shared := { s with consumerAt := .waitEvent }, setTimer := false, posted := [] }
  | .waitEvent =>
    return { shared := { s with consumerAt := .waitEventUntil }, setTimer := true, posted := [] }
  | .waitEventUntil =>
    if expired ∧ s.numEl > 0 then do
      let popped ← read s.queue 0
      let numEl := s.numEl - 1
      let queue ← dequeue s.queue numEl.toNat
      return {
        shared := { s with queue := queue, numEl := numEl, popped := s.popped ++ [popped] }
        setTimer := true
        posted := [(.producer, .popped)] }
    else return { shared := s, setTimer := false, posted := [] }

/-- Both processes, as the kernel calls them. -/
def program : Program Proc Event Nat Shared
  | .producer, _, random, expired, s => producer random expired s
  | .consumer, _, _, expired, s => consumer expired s

/-- The processes are started one after the other, before any event is delivered. -/
def autostart : Option (State Proc Event Shared) := do
  let s : State Proc Event Shared := {
    shared := {
      producerAt := .begin
      consumerAt := .begin
      queue := List.replicate 10 0
      numEl := 0
      produced := []
      popped := [] }
    running := fun _ => false
    pending := [] }
  let s ← s.run program .producer .init 0
  s.run program .consumer .init 0

end Nsds.Es1
