import Mathlib.Logic.Function.Basic
import Nsds.Lib.Stash
import Nsds.Lib.Transition

/-!
# `Akka/NSDS_akka_tutorial_and_lab`, package `com.lab4`

The server (`ServerActor.java`) sends every message back to its sender, unless it is
asleep. The clients (`ClientActor.java`) pass on to it what the main program tells them.
-/

namespace Nsds.Lab4

open Stash Transition

structure Message (X : Type) where
  message : X
deriving DecidableEq, Repr

/-- `ActorRef`s. The main program tells as `ActorRef.noSender()`. -/
inductive Ref (C : Type) where
  | noSender
  | server
  | client (c : C)
deriving DecidableEq, Repr

/-- What a client may be told, and passes on. -/
inductive Request (X : Type) where
  | message (msg : Message X)
  | sleep
  | wakeup
deriving DecidableEq, Repr

variable {C X : Type}

/-! ## `ServerActor` -/

/-- A message in the mailbox or in the stash, with `sender()`. -/
structure Envelope (C X : Type) where
  request : Request X
  sender : Ref C
deriving DecidableEq, Repr

inductive Behavior where
  | awake
  | sleeping
deriving DecidableEq, Repr

/-- A message on its way back, and to whom. -/
abbrev Echo (C X : Type) := Ref C × Message X

/-- A message that no clause matches is dropped. -/
def unhandled (behavior : Behavior) : Reaction Behavior (Echo C X) where
  behavior := behavior
  out := []
  stash := false
  unstashAll := false

def onSleepMessage : Reaction Behavior (Echo C X) where
  behavior := .sleeping
  out := []
  stash := false
  unstashAll := false

def onWakeupMessage : Reaction Behavior (Echo C X) where
  behavior := .awake
  out := []
  stash := false
  unstashAll := true

def onMessageStatusWake (sender : Ref C) (p : Message X) : Reaction Behavior (Echo C X) where
  behavior := .awake
  out := [(sender, p)]
  stash := false
  unstashAll := false

/-- While the server sleeps, messages are stashed. -/
def onMessageStatusSleep (_ : Message X) : Reaction Behavior (Echo C X) where
  behavior := .sleeping
  out := []
  stash := true
  unstashAll := false

def receive : Behavior → Envelope C X → Reaction Behavior (Echo C X)
  | .awake, ⟨.sleep, _⟩ => onSleepMessage
  | .awake, ⟨.message p, sender⟩ => onMessageStatusWake sender p
  | .awake, ⟨.wakeup, _⟩ => unhandled .awake
  | .sleeping, ⟨.wakeup, _⟩ => onWakeupMessage
  | .sleeping, ⟨.message p, _⟩ => onMessageStatusSleep p
  | .sleeping, ⟨.sleep, _⟩ => unhandled .sleeping

/-! ## `ClientActor` -/

inductive ClientMsg (C X : Type) where
  | serverReference (ref : Ref C)
  | request (request : Request X)
deriving DecidableEq, Repr

structure ClientEnvelope (C X : Type) where
  msg : ClientMsg C X
  sender : Ref C
deriving DecidableEq, Repr

/-- `server` is `null` at first. -/
structure Client (C : Type) where
  server : Option (Ref C)
deriving DecidableEq, Repr

inductive Exn where
  | nullPointer
deriving DecidableEq, Repr

/-- What the client tells to its server, if anything. -/
abbrev Tells (C X : Type) := Client C × Option (Ref C × Request X)

/-- `server.tell(msg, self())`. -/
def Client.tellServer (client : Client C) (request : Request X) : Except Exn (Tells C X) :=
  match client.server with
  | none => .error .nullPointer
  | some ref => .ok (client, some (ref, request))

/-- A message from the server is an echo. Any other is passed on. -/
def Client.onMessage [DecidableEq C] (client : Client C) (sender : Ref C) (msg : Message X) :
    Except Exn (Tells C X) :=
  if some sender = client.server then .ok (client, none)
  else client.tellServer (.message msg)

def Client.receive [DecidableEq C] (client : Client C) :
    ClientEnvelope C X → Except Exn (Tells C X)
  | ⟨.serverReference ref, _⟩ => .ok ({ server := some ref }, none)
  | ⟨.request (.message msg), sender⟩ => client.onMessage sender msg
  | ⟨.request .sleep, _⟩ => client.tellServer .sleep
  | ⟨.request .wakeup, _⟩ => client.tellServer .wakeup

/-- A client whose handler throws is restarted. -/
def Client.supervised [DecidableEq C] (client : Client C) (envelope : ClientEnvelope C X) :
    Tells C X :=
  match client.receive envelope with
  | .ok result => result
  | .error _ => ({ server := none }, none)

/-! ## The system -/

/-- `given c` is every `Message` that the main program told to `c`. -/
structure State (C X : Type) where
  server : Actor Behavior (Envelope C X) (Echo C X)
  clients : C → Client C
  mailbox : C → List (ClientEnvelope C X)
  given : C → List (Message X)

def Request.messages : Request X → List (Message X)
  | .message msg => [msg]
  | _ => []

/-- The request reaches the server, or nobody. -/
def Actor.tell (server : Actor Behavior (Envelope C X) (Echo C X)) (c : C) :
    Option (Ref C × Request X) → Actor Behavior (Envelope C X) (Echo C X)
  | some (.server, request) => server.arrive ⟨request, .client c⟩
  | _ => server

/-- The echoes among `echoes` that reach `c`, in its mailbox. -/
def echoesTo [DecidableEq C] (c : C) (echoes : List (Echo C X)) : List (Message X) :=
  (echoes.filter fun echo => echo.1 = .client c).map Prod.snd

/-- An echo as it comes to a client. -/
def echoEnvelope (msg : Message X) : ClientEnvelope C X := ⟨.request (.message msg), .server⟩

inductive Action (C : Type) where
  | main
  | configure
  | client (c : C)
  | server

/-- Any actor takes its next message, at any time. -/
inductive Step [DecidableEq C] (s : State C X) : Action C → State C X → Prop where
  | main (c : C) (request : Request X) :
      Step s .main { s with
        mailbox := Function.update s.mailbox c (s.mailbox c ++ [⟨.request request, .noSender⟩])
        given := Function.update s.given c (s.given c ++ request.messages) }
  | configure (c : C) :
      Step s .configure { s with
        mailbox := Function.update s.mailbox c
          (s.mailbox c ++ [⟨.serverReference .server, .noSender⟩]) }
  | client (c : C) (envelope : ClientEnvelope C X) (rest : List (ClientEnvelope C X))
      (hm : s.mailbox c = envelope :: rest) :
      Step s (.client c) { s with
        server := Actor.tell s.server c ((s.clients c).supervised envelope).2
        clients := Function.update s.clients c ((s.clients c).supervised envelope).1
        mailbox := Function.update s.mailbox c rest }
  | server (envelope : Envelope C X) (rest : List (Envelope C X))
      (hm : s.server.mailbox = envelope :: rest) :
      Step s .server { s with
        server := s.server.react envelope rest (receive s.server.behavior envelope)
        mailbox := fun c => s.mailbox c ++
          (echoesTo c (receive s.server.behavior envelope).out).map echoEnvelope }

/-- The clients know the server, and nothing was told to them but that. -/
def system (C X : Type) [DecidableEq C] : System (State C X) (Action C) where
  start s := s.server = .new .awake ∧ (∀ c, (s.clients c).server = some .server) ∧
    (∀ c, s.mailbox c = []) ∧ ∀ c, s.given c = []
  step := Step

end Nsds.Lab4
