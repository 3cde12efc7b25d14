import Mathlib.Algebra.Ring.Int.Defs
import Mathlib.Algebra.Ring.Nat
import Mathlib.Data.List.Basic
import Nsds.Lib.Transition

/-!
# `Contiki-NG/lab/es3`

A client (`udp-client.c`) that sends a counter, and a server (`udp-server.c`) that sends it
back. An `unsigned` has `w` bits.
-/

namespace Nsds.Es3

open Transition

/-- `id` tells the requests apart. It is not part of the datagram. -/
structure Datagram where
  id : Nat
  count : Nat
deriving DecidableEq, Repr

inductive Event where
  | timer
  | received
  | other
deriving DecidableEq, Repr

/-- What the server and the client have exchanged. -/
inductive Entry where
  | request (d : Datagram)
  | response (d : Datagram)
deriving DecidableEq, Repr

/-- The static variables of the client, and the network. `expired` is `etimer_expired`. -/
structure State where
  count : Nat
  received : Bool
  expired : Bool
  events : List Event
  requests : List Datagram
  responses : List Datagram
  history : List Entry

def State.start : State where
  count := 0
  received := false
  expired := false
  events := []
  requests := []
  responses := []
  history := []

def Entry.isRequest : Entry → Bool
  | .request _ => true
  | .response _ => false

/-- `udp_rx_callback` of the client. It logs the count in the response, and no more. -/
def State.clientCallback (s : State) (d : Datagram) : State :=
  { s with
    received := true
    events := s.events ++ [.received]
    history := s.history ++ [.response d] }

/-- `udp_rx_callback` of the server. -/
def State.serverCallback (s : State) (d : Datagram) : State :=
  { s with responses := s.responses ++ [d] }

/-- The loop of `udp_client_process`, from one wait to the next. -/
def State.wake (w : Nat) (s : State) (reachable : Bool) : State :=
  if s.expired || s.received then
    if reachable then
      let count := if !s.received then 0 else (s.count + 1) % 2 ^ w
      let d : Datagram := { id := s.history.countP Entry.isRequest, count := count }
      { s with
        count := count
        received := false
        requests := s.requests ++ [d]
        history := s.history ++ [.request d]
        expired := false }
    else { s with expired := false }
  else s

inductive Action where
  | expire
  | post
  | wake
  | lose
  | serve
  | receive (d : Datagram)

/-- A datagram may arrive at any time, or get lost. So may events, but they do not get lost. -/
inductive Step (w : Nat) (s : State) : Action → State → Prop where
  | expire (hrunning : s.expired = false) :
      Step w s .expire { s with expired := true, events := s.events ++ [.timer] }
  | post (e : Event) : Step w s .post { s with events := s.events ++ [e] }
  | wake (e : Event) (pre post : List Event) (reachable : Bool) (he : s.events = pre ++ e :: post) :
      Step w s .wake (State.wake w { s with events := pre ++ post } reachable)
  | loseRequest (d : Datagram) (pre post : List Datagram) (hd : s.requests = pre ++ d :: post) :
      Step w s .lose { s with requests := pre ++ post }
  | loseResponse (d : Datagram) (pre post : List Datagram) (hd : s.responses = pre ++ d :: post) :
      Step w s .lose { s with responses := pre ++ post }
  | serve (d : Datagram) (pre post : List Datagram) (hd : s.requests = pre ++ d :: post) :
      Step w s .serve (State.serverCallback { s with requests := pre ++ post } d)
  | receive (d : Datagram) (pre post : List Datagram) (hd : s.responses = pre ++ d :: post) :
      Step w s (.receive d) (State.clientCallback { s with responses := pre ++ post } d)

/-- The client has sent nothing. -/
def system (w : Nat) : System State Action where
  start s := s = .start
  step := Step w

end Nsds.Es3
