import Mathlib.Algebra.Ring.Int.Defs
import Mathlib.Algebra.Ring.Nat
import Mathlib.Data.List.AList
import Mathlib.Data.Rat.Defs
import Mathlib.Logic.Function.Basic
import Nsds.Lib.Transition

/-!
# `Akka/NSDS_akka_eval_group25`

The dispatcher (`DispatcherActor.java`), its children (`SensorProcessorActor.java`)
and the messages between them. Sensors and processors are known by their
`ActorRef`s: `S` and `P` here.
-/

namespace Nsds.Sensors

open Transition

structure TemperatureMsg (S : Type) where
  temperature : Int
  sender : S
deriving DecidableEq, Repr

/-- What the handlers throw. -/
inductive Exn where
  | noSuchElement
  | indexOutOfBounds
  | nullPointer
  | negativeTemperature
deriving DecidableEq, Repr

/-! ## `DispatchLogicMsg` -/

namespace DispatchLogicMsg

def LOAD_BALANCER : Int := 1

end DispatchLogicMsg

/-! ## `DispatcherActor` -/

/-- The list `processors`, which the constructor fills and nothing changes later. -/
structure Processors (P : Type) where
  refs : List P
  nonempty : refs ≠ []

/-- `NO_PROCESSORS`: the constructor adds this many. -/
def Processors.count {P : Type} (processors : Processors P) : Nat := processors.refs.length

/-- The `Receive` that `become` installed last. -/
inductive Behavior where
  | loadBalancer
  | roundRobin
deriving DecidableEq, Repr

structure Dispatcher (S P : Type) where
  behavior : Behavior
  index : Nat
  loadBalanceMap : AList fun _ : S => P

/-- The order in which a stream walks the entries of a `HashMap`. Java leaves it open. -/
structure HashOrder (P : Type) where
  arrange : List (P × Nat) → List (P × Nat)
  perm : ∀ es, (arrange es).Perm es

section

variable {S P : Type} [DecidableEq S] [DecidableEq P]

def Dispatcher.values (d : Dispatcher S P) : List P := d.loadBalanceMap.entries.map Sigma.snd

/-- `Collectors.groupingBy(Function.identity(), Collectors.counting())`. -/
def groupingByCounting (values : List P) : AList fun _ : P => Nat :=
  values.foldl (fun result p => result.insert p ((result.lookup p).getD 0 + 1)) ∅

/-- `if (!result.containsKey(p)) result.put(p, 0L)`. -/
def putIfMissing (result : AList fun _ : P => Nat) (p : P) : AList fun _ : P => Nat :=
  if p ∈ result then result else result.insert p 0

/-- `stream.min(Comparator.comparing(Map.Entry::getValue))`: the first entry of the least value. -/
def streamMin : List (P × Nat) → Option (P × Nat)
  | [] => none
  | e :: es => some (es.foldl (fun a b => if a.2 ≤ b.2 then a else b) e)

/-- The loads of all processors, those without a sensor included. -/
def Dispatcher.loads (processors : Processors P) (d : Dispatcher S P) : List (P × Nat) :=
  (processors.refs.foldl putIfMissing (groupingByCounting d.values)).entries.map
    fun e => (e.1, e.2)

/-- The first half of `dispatchDataLoadBalancer`: a new sensor gets a processor. -/
def Dispatcher.register (processors : Processors P) (order : HashOrder P) (d : Dispatcher S P)
    (sender : S) : Except Exn (Dispatcher S P) :=
  if sender ∈ d.loadBalanceMap then .ok d
  else match streamMin (order.arrange (d.loads processors)) with
    | none => .error .noSuchElement
    | some entryWithMinValue =>
      .ok { d with loadBalanceMap := d.loadBalanceMap.insert sender entryWithMinValue.1 }

/-- The dispatcher after a message, and where it forwarded that message. -/
abbrev Forwards (S P : Type) := Dispatcher S P × List (P × TemperatureMsg S)

/-- A new sensor is registered, and every message goes to the processor of its sensor. -/
def dispatchDataLoadBalancer (processors : Processors P) (order : HashOrder P)
    (d : Dispatcher S P) (msg : TemperatureMsg S) : Except Exn (Forwards S P) :=
  match d.register processors order msg.sender with
  | .error e => .error e
  | .ok d =>
    match d.loadBalanceMap.lookup msg.sender with
    | none => .error .nullPointer
    | some p => .ok (d, [(p, msg)])

/-- Every message goes to the next processor. -/
def dispatchDataRoundRobin (processors : Processors P) (d : Dispatcher S P)
    (msg : TemperatureMsg S) : Except Exn (Forwards S P) :=
  match processors.refs[d.index]? with
  | none => .error .indexOutOfBounds
  | some p => .ok ({ d with index := (d.index + 1) % processors.count }, [(p, msg)])

/-- Whatever is not `LOAD_BALANCER` switches to round robin. -/
def onDispatchLogicMsg (d : Dispatcher S P) (logic : Int) : Dispatcher S P :=
  if logic = DispatchLogicMsg.LOAD_BALANCER then { d with behavior := .loadBalancer }
  else { d with behavior := .roundRobin }

/-- A message to the dispatcher. A temperature comes with the order in which the
streams walk the hash maps while it is handled. -/
inductive Event (S P : Type) where
  | temperature (msg : TemperatureMsg S) (order : HashOrder P)
  | dispatchLogic (logic : Int)

/-- The handler that is installed. -/
def Dispatcher.receive (processors : Processors P) (d : Dispatcher S P) :
    Event S P → Except Exn (Forwards S P)
  | .dispatchLogic logic => .ok (onDispatchLogicMsg d logic, [])
  | .temperature msg order =>
    match d.behavior with
    | .loadBalancer => dispatchDataLoadBalancer processors order d msg
    | .roundRobin => dispatchDataRoundRobin processors d msg

def Dispatcher.new : Dispatcher S P where
  behavior := .loadBalancer
  index := 0
  loadBalanceMap := ∅

/-- `none` if some message made a handler throw. -/
def Dispatcher.receiveAll (processors : Processors P) (d : Dispatcher S P) :
    List (Event S P) → Option (Dispatcher S P)
  | [] => some d
  | ev :: evs =>
    match d.receive processors ev with
    | .ok (d, _) => d.receiveAll processors evs
    | .error _ => none

/-- The dispatcher alone, with any messages. -/
def dispatcherSystem (processors : Processors P) : System (Dispatcher S P) (Event S P) where
  start d := d = .new
  step d ev d' := ∃ sent, d.receive processors ev = .ok (d', sent)

end

/-! ## `SensorProcessorActor` -/

/-- A Java `int`: the arithmetic wraps around. -/
def toInt (n : Int) : Int := n.bmod (2 ^ 32)

structure SensorProcessor where
  currentAverage : ℚ
  readings : Int
deriving DecidableEq

def SensorProcessor.new : SensorProcessor where
  currentAverage := 0
  readings := 0

/-- `gotData`: the fields afterwards, and what was thrown, if anything was. -/
def gotData {S : Type} (sp : SensorProcessor) (msg : TemperatureMsg S) :
    SensorProcessor × Option Exn :=
  if 0 ≤ msg.temperature then
    ({ currentAverage :=
         (sp.currentAverage * sp.readings + msg.temperature) / toInt (sp.readings + 1)
       readings := toInt (sp.readings + 1) }, none)
  else (sp, some .negativeTemperature)

/-! ## Supervision -/

inductive Directive where
  | resume
  | restart
  | stop
  | escalate
deriving DecidableEq, Repr

/-- `DeciderBuilder.match(Exception.class, e -> SupervisorStrategy.resume())`. -/
def decider (_ : Exn) : Directive := .resume

/-- What Akka does to a child that failed with its fields at `sp`. A child that is
stopped is gone, and an escalated failure stops it with its supervisor. -/
def supervise (sp : SensorProcessor) : Directive → Option SensorProcessor
  | .resume => some sp
  | .restart => some .new
  | .stop => none
  | .escalate => none

/-! ## The whole system -/

/-- The dispatcher, the processors that are alive, and what is in their mailboxes.
A temperature message carries its place in `handled`, the list of all that the
dispatcher handled. `processed` is what each processor took out of its mailbox. -/
structure State (S P : Type) where
  dispatcher : Dispatcher S P
  children : P → Option SensorProcessor
  mailbox : P → List (Nat × TemperatureMsg S)
  handled : List (TemperatureMsg S)
  processed : P → List (Nat × TemperatureMsg S)

section

variable {S P : Type} [DecidableEq S] [DecidableEq P]

def Event.temperatures : Event S P → List (TemperatureMsg S)
  | .temperature msg _ => [msg]
  | .dispatchLogic _ => []

/-- `tell`, for everything that one message made the dispatcher forward. -/
def deliver (tag : Nat) (sent : List (P × TemperatureMsg S))
    (mailbox : P → List (Nat × TemperatureMsg S)) : P → List (Nat × TemperatureMsg S) :=
  sent.foldl (fun mailbox m => Function.update mailbox m.1 (mailbox m.1 ++ [(tag, m.2)])) mailbox

/-- The fields of a child after a message, once its supervisor dealt with a failure. -/
def handle (sp : SensorProcessor) (msg : TemperatureMsg S) : Option SensorProcessor :=
  match gotData sp msg with
  | (sp, none) => some sp
  | (sp, some e) => supervise sp (decider e)

inductive Action (S P : Type) where
  | dispatch (ev : Event S P)
  | process (p : P)

/-- The dispatcher handles any message, and a processor the oldest of its mailbox. -/
inductive Step (processors : Processors P) (s : State S P) : Action S P → State S P → Prop where
  | dispatch (ev : Event S P) (d : Dispatcher S P) (sent : List (P × TemperatureMsg S))
      (hd : s.dispatcher.receive processors ev = .ok (d, sent)) :
      Step processors s (.dispatch ev) { s with
        dispatcher := d
        mailbox := deliver s.handled.length sent s.mailbox
        handled := s.handled ++ ev.temperatures }
  | process (p : P) (sp : SensorProcessor) (k : Nat) (msg : TemperatureMsg S)
      (rest : List (Nat × TemperatureMsg S)) (hp : s.children p = some sp)
      (hm : s.mailbox p = (k, msg) :: rest) :
      Step processors s (.process p) { s with
        children := Function.update s.children p (handle sp msg)
        mailbox := Function.update s.mailbox p rest
        processed := Function.update s.processed p (s.processed p ++ [(k, msg)]) }

def State.new : State S P where
  dispatcher := .new
  children _ := some .new
  mailbox _ := []
  handled := []
  processed _ := []

def system (processors : Processors P) : System (State S P) (Action S P) where
  start s := s = .new
  step := Step processors

end

end Nsds.Sensors
