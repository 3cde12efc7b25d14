import Nsds.Akka.PubSub.Code

/-!
# Batching

Whatever the order of the switches is, both workers get every event once, in the order
in which the broker got them.
-/

namespace Nsds.PubSub

open Stash Transition

variable {T V S : Type}

/-- The event in a message to `w`. -/
def Tell.event (w : Worker) : Tell T V S → Option (PublishMsg T V)
  | (w', .publish msg) => if w' = w then some msg else none
  | (_, .subscribe _) => none

def BrokerMsg.event : BrokerMsg T V S → Option (PublishMsg T V)
  | .publish msg => some msg
  | _ => none

/-- The events that the broker has sent to `w`. -/
def State.forwarded (s : State T V S) (w : Worker) : List (PublishMsg T V) :=
  s.broker.sent.filterMap (Tell.event w)

/-- The events that have arrived, the oldest first. -/
def State.events (s : State T V S) : List (PublishMsg T V) :=
  s.broker.arrived.filterMap BrokerMsg.event

theorem receive_lawful (w : Worker) :
    Lawful (receive (T := T) (V := V) (S := S)) (· = .batchedOff) (Tell.event w)
      BrokerMsg.event := by
  constructor
  case stash =>
    intro b m hstash
    cases b <;> cases m <;> simp_all [receive, onSubscribe, onPublish, onPubBatch, onBatching]
  case handle =>
    intro b m hstash
    cases w <;> cases b <;> cases m <;>
      simp_all [receive, onSubscribe, onPublish, onPubBatch, onBatching, Tell.event,
        BrokerMsg.event]
  case opens =>
    intro b m hopen
    cases b <;> cases m <;> simp_all [receive, onSubscribe, onPublish, onPubBatch, onBatching]

theorem broker_inOrder [DecidableEq T] {s : State T V S} (h : (system T V S).Reachable s)
    (w : Worker) : InOrder (· = .batchedOff) (Tell.event w) BrokerMsg.event s.broker := by
  refine h.invariant (fun s => InOrder _ _ _ s.broker) ?_ ?_
  · rintro s rfl
    exact .new _
  · intro s a t hs hstep
    cases hstep with
    | arrive msg => exact hs.arrive msg
    | broker msg rest hm => exact hs.react (receive_lawful w) hm
    | worker => exact hs

/-- The workers get the same events, in the order in which the broker got them, and all of
them as soon as batching is off and the mailbox is empty. -/
theorem batching_in_order [DecidableEq T] {s : State T V S} (h : (system T V S).Reachable s) :
    s.forwarded .oddWorker = s.forwarded .evenWorker ∧
    s.forwarded .oddWorker <+: s.events ∧
    (s.broker.mailbox = [] → s.broker.behavior = .batchedOff →
      s.forwarded .oddWorker = s.events) := by
  have hodd := broker_inOrder h .oddWorker
  have heven := broker_inOrder h .evenWorker
  refine ⟨?_, hodd.sent_le, fun hmailbox hopen => hodd.sent_all hopen hmailbox⟩
  -- What is still to be sent is the same for both.
  exact List.append_cancel_right (hodd.order.trans heven.order.symm)

theorem batching_in_order_two : ∃ s : State Nat Nat Nat,
    s.events = [⟨0, 7⟩, ⟨0, 8⟩] ∧ s.forwarded .oddWorker = s.events := by
  have h0 : (system Nat Nat Nat).Reachable .new := .start rfl
  have h1 := h0.step (.arrive (.batch ⟨true⟩))
  have h2 := h1.step (.arrive (.publish ⟨0, 7⟩))
  have h3 := h2.step (.arrive (.batch ⟨false⟩))
  have h4 := h3.step (.arrive (.publish ⟨0, 8⟩))
  have h5 := h4.step (.broker _ _ rfl)
  have h6 := h5.step (.broker _ _ rfl)
  have h7 := h6.step (.broker _ _ rfl)
  have h8 := h7.step (.broker _ _ rfl)
  have h9 := h8.step (.broker _ _ rfl)
  exact ⟨_, rfl, (batching_in_order h9).2.2 rfl rfl⟩

end Nsds.PubSub
