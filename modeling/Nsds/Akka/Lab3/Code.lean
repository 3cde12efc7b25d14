import Mathlib.Logic.Function.Basic
import Nsds.Lib.Transition

/-!
# `Akka/NSDS_akka_tutorial_and_lab`, package `com.lab3`

A client (`ClientActor.java`) that puts contacts into the server (`ContactActor.java`) and
asks for them. Names and e-mails are `N` and `E`. An e-mail may be `null`.
-/

namespace Nsds.Lab3

open Transition

/-- `PutMessage` and `GetMessage`, which the client passes on as they are. -/
inductive Request (N E : Type) where
  | put (name : N) (email : Option E)
  | get (name : N)
deriving DecidableEq, Repr

/-- What the two actors throw. -/
inductive Exn where
  | invalidMessage
  | nullPointer
  | illegalArgument
  | timeout
deriving DecidableEq, Repr

variable {N E : Type}

/-! ## `ContactActor` -/

/-- The `HashMap`. A name may have `null` as its value. -/
abbrev Contacts (N E : Type) := N → Option (Option E)

namespace ContactActor

def new : Contacts N E := fun _ => none

variable [DecidableEq N]

/-- The map afterwards, and the reply to `getSender()`. -/
def onPutMessage (contacts : Contacts N E) (name : N) (email : Option E) :
    Except Exn (Contacts N E × Option E) :=
  .ok (Function.update contacts name (some email), none)

/-- There is no telling `null`. -/
def onGetMessage (contacts : Contacts N E) (name : N) : Except Exn (Contacts N E × Option E) :=
  match (contacts name).join with
  | none => .error .invalidMessage
  | some email => .ok (contacts, some email)

def receive (contacts : Contacts N E) : Request N E → Except Exn (Contacts N E × Option E)
  | .put name email => onPutMessage contacts name email
  | .get name => onGetMessage contacts name

/-- An actor whose handler throws is restarted. -/
def supervised (contacts : Contacts N E) (request : Request N E) : Contacts N E × Option E :=
  match receive contacts request with
  | .ok result => result
  | .error _ => (new, none)

end ContactActor

/-! ## `ClientActor` -/

inductive Ref where
  | contact
deriving DecidableEq, Repr

inductive ClientMsg (N E : Type) where
  | request (request : Request N E)
  | serverReference (ref : Ref)
deriving DecidableEq, Repr

/-- `server` is `null` at first. -/
structure Client where
  server : Option Ref
deriving DecidableEq, Repr

namespace ClientActor

def new : Client := { server := none }

/-- What a handler does besides changing the client. The ask is awaited. -/
inductive Effect (N E : Type) where
  | none
  | tell (ref : Ref) (request : Request N E)
  | ask (ref : Ref) (name : N)
deriving DecidableEq, Repr

/-- To ask `null` gives a future that has failed, whose result throws. -/
def onGetMessage (client : Client) (name : N) : Except Exn (Client × Effect N E) :=
  match client.server with
  | none => .error .illegalArgument
  | some ref => .ok (client, .ask ref name)

def onPutMessage (client : Client) (name : N) (email : Option E) :
    Except Exn (Client × Effect N E) :=
  match client.server with
  | none => .error .nullPointer
  | some ref => .ok (client, .tell ref (.put name email))

/-- The reference is kept as it came. -/
def setServer (ref : Ref) : Except Exn (Client × Effect N E) :=
  .ok ({ server := some ref }, .none)

def receive (client : Client) : ClientMsg N E → Except Exn (Client × Effect N E)
  | .request (.get name) => onGetMessage client name
  | .request (.put name email) => onPutMessage client name email
  | .serverReference ref => setServer ref

end ClientActor

/-! ## The two actors -/

/-- What a message to the client came to. -/
inductive Outcome (E : Type) where
  | done
  | printed (email : E)
  | threw (exn : Exn)
deriving DecidableEq, Repr

/-- `asking` is the name whose e-mail the client awaits, `handled` what it is done with. -/
structure State (N E : Type) where
  client : Client
  inbox : List (ClientMsg N E)
  asking : Option N
  handled : List (ClientMsg N E × Outcome E)
  contacts : Contacts N E
  mailbox : List (Request N E)

/-- The client handles `msg`, with `rest` behind it. -/
def State.take (s : State N E) (msg : ClientMsg N E) (rest : List (ClientMsg N E)) : State N E :=
  match ClientActor.receive s.client msg with
  | .error exn =>
    { s with client := ClientActor.new, inbox := rest, handled := s.handled ++ [(msg, .threw exn)] }
  | .ok (client, .none) =>
    { s with client := client, inbox := rest, handled := s.handled ++ [(msg, .done)] }
  | .ok (client, .tell .contact request) =>
    { s with
      client := client
      inbox := rest
      handled := s.handled ++ [(msg, .done)]
      mailbox := s.mailbox ++ [request] }
  | .ok (client, .ask .contact name) =>
    { s with
      client := client
      inbox := rest
      asking := some name
      mailbox := s.mailbox ++ [.get name] }

/-- A reply ends the ask, if one is waiting. -/
def State.reply (s : State N E) : Option E → State N E
  | none => s
  | some email =>
    match s.asking with
    | none => s
    | some name =>
      { s with
        asking := none
        handled := s.handled ++ [(.request (.get name), .printed email)] }

/-- The server handles `request`, with `rest` behind it. -/
def State.serve [DecidableEq N] (s : State N E) (request : Request N E)
    (rest : List (Request N E)) : State N E :=
  let (contacts, email) := ContactActor.supervised s.contacts request
  State.reply { s with contacts := contacts, mailbox := rest } email

inductive Action (N E : Type) where
  | client (msg : ClientMsg N E)
  | contact (request : Request N E)
  | timeout

/-- A reply is always in time: an ask fails only if there is none to come. -/
inductive Step [DecidableEq N] (s : State N E) : Action N E → State N E → Prop where
  | client (msg : ClientMsg N E) (rest : List (ClientMsg N E)) (hfree : s.asking = none)
      (hm : s.inbox = msg :: rest) : Step s (.client msg) (s.take msg rest)
  | contact (request : Request N E) (rest : List (Request N E)) (hm : s.mailbox = request :: rest) :
      Step s (.contact request) (s.serve request rest)
  | timeout (name : N) (hasking : s.asking = some name) (hm : .get name ∉ s.mailbox) :
      Step s .timeout { s with
        client := ClientActor.new
        asking := none
        handled := s.handled ++ [(.request (.get name), .threw .timeout)] }

/-- The client knows the server, and `msgs` are sent to it. -/
def system [DecidableEq N] (msgs : List (Request N E)) : System (State N E) (Action N E) where
  start s := s = {
    client := { server := some .contact }
    inbox := msgs.map .request
    asking := none
    handled := []
    contacts := ContactActor.new
    mailbox := [] }
  step := Step

end Nsds.Lab3
