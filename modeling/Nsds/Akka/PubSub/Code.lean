import Mathlib.Logic.Function.Basic
import Nsds.Lib.Stash
import Nsds.Lib.Transition

/-!
# `Akka/NSDS_akka_tutorial_and_lab`, package `com.evaluation22`

The broker (`BrokerActor.java`), its two workers (`WorkerActor.java`) and the messages
between them. Topics, values and the `ActorRef`s of the subscribers are `T`, `V` and `S`.
-/

namespace Nsds.PubSub

open Stash Transition

/-- `key` is the `hashCode()` of the message object, which may be any `int`. -/
structure SubscribeMsg (T S : Type) where
  key : Int
  topic : T
  sender : S
deriving DecidableEq, Repr

structure PublishMsg (T V : Type) where
  topic : T
  value : V
deriving DecidableEq, Repr

structure NotifyMsg (V : Type) where
  value : V
deriving DecidableEq, Repr

structure BatchMsg where
  isOn : Bool
deriving DecidableEq, Repr

inductive WorkerMsg (T V S : Type) where
  | subscribe (msg : SubscribeMsg T S)
  | publish (msg : PublishMsg T V)
deriving DecidableEq, Repr

inductive BrokerMsg (T V S : Type) where
  | subscribe (msg : SubscribeMsg T S)
  | publish (msg : PublishMsg T V)
  | batch (msg : BatchMsg)
deriving DecidableEq, Repr

/-! ## `BrokerActor` -/

inductive Worker where
  | oddWorker
  | evenWorker
deriving DecidableEq, Repr

inductive Behavior where
  | batchedOff
  | batchedOn
deriving DecidableEq, Repr

variable {T V S : Type}

/-- A `tell` of the broker to one of its workers. -/
abbrev Tell (T V S : Type) := Worker × WorkerMsg T V S

/-- The worker that `msg.getKey() % 2 == 1` chooses. The sign of `%` is that of the key. -/
def SubscribeMsg.worker (msg : SubscribeMsg T S) : Worker :=
  if msg.key.tmod 2 = 1 then .oddWorker else .evenWorker

def onSubscribe (behavior : Behavior) (msg : SubscribeMsg T S) :
    Reaction Behavior (Tell T V S) where
  behavior := behavior
  out := [(msg.worker, .subscribe msg)]
  stash := false
  unstashAll := false

/-- An event goes to both workers. -/
def onPublish (behavior : Behavior) (msg : PublishMsg T V) : Reaction Behavior (Tell T V S) where
  behavior := behavior
  out := [(.oddWorker, .publish msg), (.evenWorker, .publish msg)]
  stash := false
  unstashAll := false

def onBatching (msg : BatchMsg) : Reaction Behavior (Tell T V S) where
  behavior := if msg.isOn then .batchedOn else .batchedOff
  out := []
  stash := false
  unstashAll := !msg.isOn

/-- While batching is on, events are stashed. -/
def onPubBatch (behavior : Behavior) (_ : PublishMsg T V) : Reaction Behavior (Tell T V S) where
  behavior := behavior
  out := []
  stash := true
  unstashAll := false

/-- `batchedOff()` and `batchedOn()`. -/
def receive : Behavior → BrokerMsg T V S → Reaction Behavior (Tell T V S)
  | behavior, .subscribe msg => onSubscribe behavior msg
  | .batchedOff, .publish msg => onPublish .batchedOff msg
  | .batchedOn, .publish msg => onPubBatch .batchedOn msg
  | _, .batch msg => onBatching msg

/-! ## `WorkerActor` -/

/-- `subscriptions`: the subscriber of a topic, if it has one. -/
abbrev Subscriptions (T S : Type) := T → Option S

inductive Exn where
  | topicNotRegistered
deriving DecidableEq, Repr

/-- The map afterwards, and the notifications. -/
def WorkerMsg.handle [DecidableEq T] (subscriptions : Subscriptions T S) :
    WorkerMsg T V S → Except Exn (Subscriptions T S × List (S × NotifyMsg V))
  | .subscribe msg => .ok (Function.update subscriptions msg.topic (some msg.sender), [])
  | .publish msg =>
    match subscriptions msg.topic with
    | none => .error .topicNotRegistered
    | some subscriber => .ok (subscriptions, [(subscriber, { value := msg.value })])

/-- A worker whose handler throws is resumed: it keeps its map and drops the message. -/
def WorkerMsg.supervised [DecidableEq T] (subscriptions : Subscriptions T S)
    (msg : WorkerMsg T V S) : Subscriptions T S × List (S × NotifyMsg V) :=
  match msg.handle subscriptions with
  | .ok result => result
  | .error _ => (subscriptions, [])

/-- A worker that gets through a whole mailbox: its map, and all that it notified. -/
def handleAll [DecidableEq T] (subscriptions : Subscriptions T S) :
    List (WorkerMsg T V S) → Subscriptions T S × List (S × NotifyMsg V)
  | [] => (subscriptions, [])
  | msg :: msgs =>
    let (subscriptions, notified) := msg.supervised subscriptions
    let (subscriptions, later) := handleAll subscriptions msgs
    (subscriptions, notified ++ later)

/-! ## The broker with its workers -/

/-- `notified` is what the workers told the subscribers. -/
structure State (T V S : Type) where
  broker : Actor Behavior (BrokerMsg T V S) (Tell T V S)
  mailbox : Worker → List (WorkerMsg T V S)
  subscriptions : Worker → Subscriptions T S
  notified : List (S × NotifyMsg V)

/-- What the broker has told one worker. -/
def toldTo (w : Worker) (tells : List (Tell T V S)) : List (WorkerMsg T V S) :=
  (tells.filter fun tell => tell.1 = w).map Prod.snd

inductive Action where
  | arrive
  | broker
  | worker

/-- The broker and the workers take their messages in any order. -/
inductive Step [DecidableEq T] (s : State T V S) : Action → State T V S → Prop where
  | arrive (msg : BrokerMsg T V S) : Step s .arrive { s with broker := s.broker.arrive msg }
  | broker (msg : BrokerMsg T V S) (rest : List (BrokerMsg T V S))
      (hm : s.broker.mailbox = msg :: rest) :
      Step s .broker { s with
        broker := s.broker.react msg rest (receive s.broker.behavior msg)
        mailbox := fun w => s.mailbox w ++ toldTo w (receive s.broker.behavior msg).out }
  | worker (w : Worker) (msg : WorkerMsg T V S) (rest : List (WorkerMsg T V S))
      (hm : s.mailbox w = msg :: rest) :
      Step s .worker { s with
        mailbox := Function.update s.mailbox w rest
        subscriptions := Function.update s.subscriptions w (msg.supervised (s.subscriptions w)).1
        notified := s.notified ++ (msg.supervised (s.subscriptions w)).2 }

def State.new : State T V S where
  broker := .new .batchedOff
  mailbox _ := []
  subscriptions _ _ := none
  notified := []

/-- Messages may arrive at the broker at any time, in any order. -/
def system (T V S : Type) [DecidableEq T] : System (State T V S) Action where
  start s := s = .new
  step := Step

end Nsds.PubSub
