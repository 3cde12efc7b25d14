import Nsds.Akka.PubSub.Delivery

/-!
# `PubSub.java`

The whole program: `main`, the publisher (`PublisherActor.java`), the subscriber
(`SubscriberActor.java`), and the broker with its workers. `main` sleeps now and then, and
nothing relies on that.
-/

namespace Nsds.PubSub

open Stash Transition
open scoped List

/-! ## `PublisherActor` and `SubscriberActor` -/

inductive Client where
  | publisher
  | subscriber
deriving DecidableEq, Repr

/-- What the two are told. There is one subscriber, so `Unit` has all `ActorRef`s. -/
inductive ClientMsg (T V : Type) where
  | config
  | subscribe (msg : SubscribeMsg T Unit)
  | publish (msg : PublishMsg T V)
  | notify (msg : NotifyMsg V)
deriving DecidableEq, Repr

inductive ClientExn where
  | nullPointer
deriving DecidableEq, Repr

/-- Whether the field `broker` is set afterwards, what the broker is told, and the value that is
printed. -/
structure Handled (T V : Type) where
  broker : Bool
  told : Option (BrokerMsg T V Unit)
  printed : Option V
deriving DecidableEq, Repr

variable {T V : Type}

def configure : Handled T V where
  broker := true
  told := none
  printed := none

/-- `broker.tell(msg, self())`. -/
def tellBroker (broker : Bool) (msg : BrokerMsg T V Unit) : Except ClientExn (Handled T V) :=
  if broker then .ok { broker, told := some msg, printed := none } else .error .nullPointer

def onNotify (broker : Bool) (msg : NotifyMsg V) : Handled T V where
  broker := broker
  told := none
  printed := some msg.value

/-- A message that nothing matches. -/
def unhandled (broker : Bool) : Handled T V where
  broker := broker
  told := none
  printed := none

/-- The two `createReceive()`. -/
def Client.receive : Client → Bool → ClientMsg T V → Except ClientExn (Handled T V)
  | _, _, .config => .ok configure
  | .publisher, broker, .publish msg => tellBroker broker (.publish msg)
  | .subscriber, broker, .subscribe msg => tellBroker broker (.subscribe msg)
  | .subscriber, broker, .notify msg => .ok (onNotify broker msg)
  | _, broker, _ => .ok (unhandled broker)

/-! ## `main` -/

/-- What `main` tells, and whom. -/
inductive MainTell (T V : Type) where
  | client (c : Client) (msg : ClientMsg T V)
  | broker (msg : BatchMsg)
deriving DecidableEq, Repr

def tellSubscription (sub : SubscribeMsg T Unit) : MainTell T V :=
  .client .subscriber (.subscribe sub)

def tellEvent (msg : PublishMsg T V) : MainTell T V := .client .publisher (.publish msg)

/-- The events of `before` are published before batching is turned on, those of `after` while
it is on. -/
def main (subscriptions : List (SubscribeMsg T Unit)) (before after : List (PublishMsg T V)) :
    List (MainTell T V) :=
  .client .subscriber .config :: .client .publisher .config ::
    (subscriptions.map tellSubscription ++ before.map tellEvent ++
      .broker { isOn := true } :: (after.map tellEvent ++ [.broker { isOn := false }]))

/-! ## The program -/

/-- `main` is what the main thread still has to tell, `broker c` whether the field of a client
is set, `printed` all that the subscriber has printed, and `state` the broker with its workers. -/
structure Program (T V : Type) where
  main : List (MainTell T V)
  broker : Client → Bool
  mailbox : Client → List (ClientMsg T V)
  printed : List V
  state : State T V Unit

inductive Turn where
  | main
  | client (c : Client)
  | broker
  | worker

def State.tell (s : State T V Unit) (msg : BrokerMsg T V Unit) : State T V Unit :=
  { s with broker := s.broker.arrive msg }

/-- A client is done with the first message of its mailbox. -/
def Program.handled (x : Program T V) (c : Client) (rest : List (ClientMsg T V))
    (r : Handled T V) : Program T V :=
  { x with
    broker := Function.update x.broker c r.broker
    mailbox := Function.update x.mailbox c rest
    printed := x.printed ++ r.printed.toList
    state := r.told.elim x.state x.state.tell }

/-- What the workers notified with their last step goes to the mailbox of the subscriber. -/
def Program.worked (x : Program T V) (state : State T V Unit) : Program T V :=
  { x with
    mailbox := Function.update x.mailbox .subscriber (x.mailbox .subscriber ++
      (state.notified.drop x.state.notified.length).map fun n => .notify n.2)
    state }

/-- Whoever has something to do takes a turn. -/
inductive Program.Step [DecidableEq T] (x : Program T V) : Turn → Program T V → Prop where
  | tellClient {c : Client} {msg : ClientMsg T V} {rest : List (MainTell T V)} :
      x.main = .client c msg :: rest →
      Step x .main { x with
        main := rest
        mailbox := Function.update x.mailbox c (x.mailbox c ++ [msg]) }
  | tellBroker {msg : BatchMsg} {rest : List (MainTell T V)} : x.main = .broker msg :: rest →
      Step x .main { x with main := rest, state := x.state.tell (.batch msg) }
  | client {c : Client} {msg : ClientMsg T V} {rest : List (ClientMsg T V)} {r : Handled T V} :
      x.mailbox c = msg :: rest → c.receive (x.broker c) msg = .ok r →
      Step x (.client c) (x.handled c rest r)
  -- a client that throws is restarted, with its field as it was at first
  | restart {c : Client} {msg : ClientMsg T V} {rest : List (ClientMsg T V)} {e : ClientExn} :
      x.mailbox c = msg :: rest → c.receive (x.broker c) msg = .error e →
      Step x (.client c) (x.handled c rest (unhandled false))
  | broker {state : State T V Unit} : PubSub.Step x.state .broker state →
      Step x .broker { x with state }
  | worker {state : State T V Unit} : PubSub.Step x.state .worker state →
      Step x .worker (x.worked state)

/-- `main`: subscriptions, events, batching on, events, batching off. -/
def program [DecidableEq T] (subscriptions : List (SubscribeMsg T Unit))
    (before after : List (PublishMsg T V)) : System (Program T V) Turn where
  start x := x = {
    main := main subscriptions before after
    broker := fun _ => false
    mailbox := fun _ => []
    printed := []
    state := .new }
  step := Program.Step

/-! ## What is on its way -/

/-- What `main` has yet to tell the client. -/
def MainTell.to (c : Client) : MainTell T V → Option (ClientMsg T V)
  | .client c' msg => if c' = c then some msg else none
  | .broker _ => none

def MainTell.switch : MainTell T V → Option BatchMsg
  | .broker msg => some msg
  | .client _ _ => none

def ClientMsg.notice : ClientMsg T V → Option V
  | .notify msg => some msg.value
  | _ => none

/-- What a client has to tell the broker for a message. -/
def Client.due : Client → ClientMsg T V → Option (BrokerMsg T V Unit)
  | .publisher, .publish msg => some (.publish msg)
  | .subscriber, .subscribe msg => some (.subscribe msg)
  | _, _ => none

def BrokerMsg.client : BrokerMsg T V Unit → Option Client
  | .subscribe _ => some .subscriber
  | .publish _ => some .publisher
  | .batch _ => none

def BrokerMsg.switch : BrokerMsg T V Unit → Option BatchMsg
  | .batch msg => some msg
  | _ => none

/-- What a client has yet to find in its mailbox, but for notifications. -/
def Program.pending (x : Program T V) (c : Client) : List (ClientMsg T V) :=
  (x.mailbox c ++ x.main.filterMap (MainTell.to c)).filter fun msg => msg.notice.isNone

/-- What a client has told the broker, and what it has yet to tell it. -/
def Program.requests (x : Program T V) (c : Client) : List (BrokerMsg T V Unit) :=
  x.state.broker.arrived.filter (fun msg => msg.client = some c) ++
    (x.pending c).filterMap c.due

/-- The switches of batching, those that have arrived first. -/
def Program.switches (x : Program T V) : List BatchMsg :=
  x.state.broker.arrived.filterMap BrokerMsg.switch ++ x.main.filterMap MainTell.switch

/-! ## What `main` asks for -/

variable {subscriptions : List (SubscribeMsg T Unit)} {before after : List (PublishMsg T V)}

def asked (subscriptions : List (SubscribeMsg T Unit)) (events : List (PublishMsg T V)) :
    Client → List (ClientMsg T V)
  | .publisher => events.map .publish
  | .subscriber => subscriptions.map .subscribe

theorem to_tellSubscription (c : Client) (subscriptions : List (SubscribeMsg T Unit)) :
    (subscriptions.map tellSubscription).filterMap (MainTell.to c) =
      if c = .subscriber then subscriptions.map (.subscribe : _ → ClientMsg T V) else [] := by
  induction subscriptions with
  | nil => simp
  | cons sub subscriptions ih =>
    rw [List.map_cons, List.filterMap_cons, ih]
    cases c <;> simp [tellSubscription, MainTell.to]

theorem to_tellEvent (c : Client) (events : List (PublishMsg T V)) :
    (events.map tellEvent).filterMap (MainTell.to c) =
      if c = .publisher then events.map .publish else [] := by
  induction events with
  | nil => simp
  | cons msg events ih =>
    rw [List.map_cons, List.filterMap_cons, ih]
    cases c <;> simp [tellEvent, MainTell.to]

theorem to_main (c : Client) : (main subscriptions before after).filterMap (MainTell.to c) =
    .config :: asked subscriptions (before ++ after) c := by
  unfold main
  simp only [List.filterMap_cons, List.filterMap_append, to_tellSubscription, to_tellEvent]
  cases c <;> simp [MainTell.to, asked]

theorem switch_main : (main subscriptions before after).filterMap MainTell.switch =
    [{ isOn := true }, { isOn := false }] := by
  have hsubscriptions : (subscriptions.map tellSubscription).filterMap
      (MainTell.switch (V := V)) = [] := by
    simp [tellSubscription, MainTell.switch]
  have hevents (events : List (PublishMsg T V)) :
      (events.map tellEvent).filterMap MainTell.switch = [] := by
    simp [tellEvent, MainTell.switch]
  unfold main
  simp only [List.filterMap_cons, List.filterMap_append, hsubscriptions, hevents]
  rfl

theorem asked_notice (c : Client) (events : List (PublishMsg T V)) :
    ∀ msg ∈ asked subscriptions events c, msg.notice = none := by
  cases c <;> simp [asked, ClientMsg.notice]

/-- What a client makes of what it is told. -/
def requested (subscriptions : List (SubscribeMsg T Unit)) (events : List (PublishMsg T V)) :
    Client → List (BrokerMsg T V Unit)
  | .publisher => events.map .publish
  | .subscriber => subscriptions.map .subscribe

theorem asked_due (c : Client) (events : List (PublishMsg T V)) :
    (asked subscriptions events c).filterMap c.due = requested subscriptions events c := by
  cases c with
  | publisher => simp [asked, requested, List.filterMap_map, Client.due, Function.comp_def]
  | subscriber => simp [asked, requested, List.filterMap_map, Client.due, Function.comp_def]

/-- Nothing is lost or told twice on the way from `main` to the broker. -/
structure Program.Inv [DecidableEq T] (requests : Client → List (BrokerMsg T V Unit))
    (x : Program T V) : Prop where
  state : (system T V Unit).Reachable x.state
  told : ∀ c msg, .client c msg ∈ x.main → msg.notice = none
  introduced : ∀ c, x.broker c = true ∨ (x.pending c).head? = some .config
  requests : ∀ c, x.requests c = requests c
  switches : x.switches = [{ isOn := true }, { isOn := false }]
  printed : x.printed ++ (x.mailbox .subscriber).filterMap ClientMsg.notice =
    x.state.notified.map fun n => n.2.value

variable [DecidableEq T] {requests : Client → List (BrokerMsg T V Unit)} {x : Program T V}

/-! ## One turn -/

omit [DecidableEq T] in
theorem receive_ok (c : Client) {broker : Bool} {msg : ClientMsg T V}
    (h : broker = true ∨ c.due msg = none) : ∃ r, c.receive broker msg = .ok r ∧
      r.told = c.due msg ∧ (r.broker = true ↔ broker = true ∨ msg = .config) ∧
      r.printed = if c = .subscriber then msg.notice else none := by
  cases c <;> cases msg <;>
    simp_all [Client.receive, Client.due, configure, tellBroker, onNotify, unhandled,
      ClientMsg.notice]

theorem Program.Inv.receive (h : x.Inv requests) {c : Client} {msg : ClientMsg T V}
    {rest : List (ClientMsg T V)} (hm : x.mailbox c = msg :: rest) :
    ∃ r, c.receive (x.broker c) msg = .ok r ∧ r.told = c.due msg ∧
      (r.broker = true ↔ x.broker c = true ∨ msg = .config) ∧
      r.printed = if c = .subscriber then msg.notice else none := by
  apply receive_ok
  rcases h.introduced c with hknown | hhead
  · exact .inl hknown
  · right
    unfold Program.pending at hhead
    rw [hm, List.cons_append, List.filter_cons] at hhead
    cases c <;> cases msg <;> simp_all [Client.due, ClientMsg.notice]

omit [DecidableEq T] in
theorem pending_tellClient {c : Client} {msg : ClientMsg T V} {rest : List (MainTell T V)}
    (hmain : x.main = .client c msg :: rest) (c' : Client) :
    Program.pending { x with
      main := rest
      mailbox := Function.update x.mailbox c (x.mailbox c ++ [msg]) } c' = x.pending c' := by
  unfold Program.pending
  rw [hmain, List.filterMap_cons]
  rcases eq_or_ne c' c with rfl | hc
  · simp [MainTell.to]
  · simp [MainTell.to, hc, hc.symm]

omit [DecidableEq T] in
theorem pending_tellBroker {msg : BatchMsg} {rest : List (MainTell T V)} {state : State T V Unit}
    (hmain : x.main = .broker msg :: rest) (c : Client) :
    Program.pending { x with main := rest, state } c = x.pending c := by
  unfold Program.pending
  rw [hmain, List.filterMap_cons]
  rfl

omit [DecidableEq T] in
theorem pending_handled {c : Client} {msg : ClientMsg T V} {rest : List (ClientMsg T V)}
    (hm : x.mailbox c = msg :: rest) (r : Handled T V) (c' : Client) :
    x.pending c' = (if c' = c ∧ msg.notice = none then [msg] else []) ++
      (x.handled c rest r).pending c' := by
  unfold Program.pending Program.handled
  rcases eq_or_ne c' c with rfl | hc
  · cases hmsg : msg.notice <;> simp [hm, hmsg]
  · simp [hc]

omit [DecidableEq T] in
theorem pending_worked (state : State T V Unit) (c : Client) :
    (x.worked state).pending c = x.pending c := by
  have hnotices (notified : List (Unit × NotifyMsg V)) :
      (notified.map fun n => (.notify n.2 : ClientMsg T V)).filter (·.notice.isNone) = [] := by
    rw [List.filter_map]
    simp [ClientMsg.notice, Function.comp_def]
  unfold Program.pending Program.worked
  rcases eq_or_ne c .subscriber with rfl | hc
  · simp only [Function.update_self, List.filter_append, hnotices, List.append_nil]
  · simp [hc]

omit [DecidableEq T] in
theorem Program.requests_eq {y : Program T V} {c : Client}
    (harrived : y.state.broker.arrived = x.state.broker.arrived)
    (hpending : y.pending c = x.pending c) : y.requests c = x.requests c := by
  unfold Program.requests
  rw [harrived, hpending]

omit [DecidableEq T] in
theorem due_notice (c : Client) {msg : ClientMsg T V} (h : msg.notice ≠ none) :
    c.due msg = none := by
  cases c <;> cases msg <;> simp_all [ClientMsg.notice, Client.due]

omit [DecidableEq T] in
theorem due_client {c : Client} {msg : ClientMsg T V} {told : BrokerMsg T V Unit}
    (h : c.due msg = some told) : told.client = some c ∧ told.switch = none := by
  cases c <;> cases msg <;> simp_all [Client.due, BrokerMsg.client, BrokerMsg.switch] <;>
    simp [← h]

theorem Program.Inv.tellClient (h : x.Inv requests) {c : Client} {msg : ClientMsg T V}
    {rest : List (MainTell T V)} (hmain : x.main = .client c msg :: rest) :
    Program.Inv requests { x with
      main := rest
      mailbox := Function.update x.mailbox c (x.mailbox c ++ [msg]) } := by
  have hpending := pending_tellClient hmain
  have hmsg : msg.notice = none := h.told c msg (by simp [hmain])
  refine ⟨h.state, fun c' msg' hmem => ?_, fun c' => ?_, fun c' => ?_, ?_, ?_⟩
  · exact h.told c' msg' (hmain ▸ List.mem_cons_of_mem _ hmem)
  · rw [hpending]
    exact h.introduced c'
  · rw [← h.requests c']
    exact Program.requests_eq rfl (hpending c')
  · rw [← h.switches]
    unfold Program.switches
    rw [hmain]
    rfl
  · rw [← h.printed]
    rcases eq_or_ne Client.subscriber c with rfl | hc
    · simp [hmsg]
    · simp [hc]

theorem Program.Inv.tellBroker (h : x.Inv requests) {msg : BatchMsg} {rest : List (MainTell T V)}
    (hmain : x.main = .broker msg :: rest) :
    Program.Inv requests { x with main := rest, state := x.state.tell (.batch msg) } := by
  refine ⟨h.state.step (.arrive _), fun c msg' hmem => ?_, fun c => ?_, fun c => ?_, ?_,
    h.printed⟩
  · exact h.told c msg' (hmain ▸ List.mem_cons_of_mem _ hmem)
  · rw [pending_tellBroker hmain]
    exact h.introduced c
  · rw [← h.requests c]
    unfold Program.requests
    rw [pending_tellBroker hmain]
    simp [State.tell, Actor.arrive, BrokerMsg.client]
  · rw [← h.switches]
    unfold Program.switches
    simp [hmain, State.tell, Actor.arrive, BrokerMsg.switch, MainTell.switch]

/-! ## A client handles a message -/

section

variable {c : Client} {msg : ClientMsg T V} {rest : List (ClientMsg T V)} {r : Handled T V}

theorem Program.Inv.introduced_handled (h : x.Inv requests) (hm : x.mailbox c = msg :: rest)
    (hbroker : r.broker = true ↔ x.broker c = true ∨ msg = .config) (c' : Client) :
    (x.handled c rest r).broker c' = true ∨
      ((x.handled c rest r).pending c').head? = some .config := by
  have hintroduced := h.introduced c'
  rw [pending_handled hm r] at hintroduced
  rcases eq_or_ne c' c with rfl | hc
  · by_cases hconfig : msg = .config
    · exact .inl (by simp [Program.handled, hbroker, hconfig])
    · rcases hintroduced with hknown | hhead
      · exact .inl (by simp [Program.handled, hbroker, hknown])
      · by_cases hnotice : msg.notice = none
        · simp [hnotice, hconfig] at hhead
        · right
          simpa [hnotice] using hhead
  · simpa [Program.handled, hc] using hintroduced

omit [DecidableEq T] in
theorem requests_handled (hm : x.mailbox c = msg :: rest) (htold : r.told = c.due msg)
    (c' : Client) : (x.handled c rest r).requests c' = x.requests c' := by
  unfold Program.requests
  rw [pending_handled hm r c', List.filterMap_append, ← List.append_assoc]
  congr 1
  unfold Program.handled
  rw [htold]
  cases hdue : c.due msg with
  | none =>
    split
    · next hc =>
      obtain ⟨rfl, -⟩ := hc
      simp [hdue]
    · simp
  | some told =>
    obtain ⟨hclient, -⟩ := due_client hdue
    have hnotice : msg.notice = none := by
      by_contra hnotice
      simp [due_notice c hnotice] at hdue
    rcases eq_or_ne c' c with rfl | hc
    · simp [State.tell, Actor.arrive, hclient, hnotice, hdue]
    · simp [State.tell, Actor.arrive, hclient, hc, hc.symm]

omit [DecidableEq T] in
theorem switches_handled (htold : r.told = c.due msg) :
    (x.handled c rest r).switches = x.switches := by
  unfold Program.switches Program.handled
  rw [htold]
  cases hdue : c.due msg with
  | none => rfl
  | some told => simp [State.tell, Actor.arrive, (due_client hdue).2]

omit [DecidableEq T] in
theorem notified_handled : (x.handled c rest r).state.notified = x.state.notified := by
  unfold Program.handled
  cases r.told <;> rfl

omit [DecidableEq T] in
theorem printed_handled (hm : x.mailbox c = msg :: rest)
    (hprinted : r.printed = if c = .subscriber then msg.notice else none) :
    (x.handled c rest r).printed ++
        ((x.handled c rest r).mailbox .subscriber).filterMap ClientMsg.notice =
      x.printed ++ (x.mailbox .subscriber).filterMap ClientMsg.notice := by
  unfold Program.handled
  rw [hprinted]
  rcases eq_or_ne c .subscriber with rfl | hc
  · rw [hm]
    cases hmsg : msg.notice <;> simp [hmsg]
  · simp [hc, hc.symm]

theorem Program.Inv.client (h : x.Inv requests) (hm : x.mailbox c = msg :: rest)
    (hr : c.receive (x.broker c) msg = .ok r) : (x.handled c rest r).Inv requests := by
  obtain ⟨r', hr', htold, hbroker, hprinted⟩ := h.receive hm
  obtain rfl : r = r' := Except.ok.inj (hr.symm.trans hr')
  refine ⟨?_, h.told, h.introduced_handled hm hbroker, fun c' => ?_, ?_, ?_⟩
  · unfold Program.handled
    cases r.told with
    | none => exact h.state
    | some told => exact h.state.step (.arrive told)
  · rw [requests_handled hm htold]
    exact h.requests c'
  · rw [switches_handled htold]
    exact h.switches
  · rw [printed_handled hm hprinted, notified_handled]
    exact h.printed

end

/-! ## The other turns -/

theorem Program.Inv.broker (h : x.Inv requests) {state : State T V Unit}
    (hstep : PubSub.Step x.state .broker state) : Program.Inv requests { x with state } := by
  have hstate := h.state.step hstep
  cases hstep with
  | broker msg rest hm =>
    exact ⟨hstate, h.told, h.introduced,
      fun c => (Program.requests_eq rfl rfl).trans (h.requests c),
      h.switches, h.printed⟩

theorem Program.Inv.worker (h : x.Inv requests) {state : State T V Unit}
    (hstep : PubSub.Step x.state .worker state) : (x.worked state).Inv requests := by
  have hstate := h.state.step hstep
  cases hstep with
  | worker w msg rest hm =>
    refine ⟨hstate, h.told, fun c => ?_, fun c => ?_, h.switches, ?_⟩
    · rw [pending_worked]
      exact h.introduced c
    · rw [← h.requests c]
      exact Program.requests_eq rfl (pending_worked _ c)
    · simp only [Program.worked, Function.update_self, List.filterMap_append, ← List.append_assoc,
        h.printed, List.drop_left, List.map_append]
      simp [ClientMsg.notice, Function.comp_def]

theorem Program.Inv.step {y : Program T V} {turn : Turn} (h : x.Inv requests)
    (hstep : Program.Step x turn y) : y.Inv requests := by
  cases hstep with
  | tellClient hmain => exact h.tellClient hmain
  | tellBroker hmain => exact h.tellBroker hmain
  | client hm hr => exact h.client hm hr
  | restart hm hr =>
    obtain ⟨_, hok, -⟩ := h.receive hm
    rw [hok] at hr
    cases hr
  | broker hstep => exact h.broker hstep
  | worker hstep => exact h.worker hstep

/-! ## The whole run -/

theorem Program.Inv.start (h : (program subscriptions before after).start x) :
    x.Inv (requested subscriptions (before ++ after)) := by
  cases h
  have hpending (c : Client) : (asked subscriptions (before ++ after) c).filter
      (·.notice.isNone) = asked subscriptions (before ++ after) c := by
    rw [List.filter_eq_self]
    exact fun msg hmsg => by simp [asked_notice c _ msg hmsg]
  refine ⟨.start rfl, fun c msg hmem => ?_, fun c => .inr ?_, fun c => ?_, switch_main, rfl⟩
  · have hto : msg ∈ (PubSub.main subscriptions before after).filterMap (MainTell.to c) :=
      List.mem_filterMap.mpr ⟨_, hmem, by simp [MainTell.to]⟩
    rw [to_main] at hto
    rcases List.mem_cons.mp hto with rfl | hto
    · rfl
    · exact asked_notice c _ msg hto
  · unfold Program.pending
    rw [to_main]
    rfl
  · unfold Program.requests Program.pending
    rw [to_main, List.nil_append, List.filter_cons_of_pos rfl, hpending,
      List.filterMap_cons_none (by cases c <;> rfl), asked_due]
    rfl

theorem Program.Inv.reachable (h : (program subscriptions before after).Reachable x) :
    x.Inv (requested subscriptions (before ++ after)) :=
  h.invariant (Program.Inv _) (fun _ => Program.Inv.start) fun _ _ _ => Program.Inv.step

/-! ## What has arrived -/

omit [DecidableEq T] in
theorem events_eq (s : State T V Unit) : s.events =
    (s.broker.arrived.filter fun msg => msg.client = some .publisher).filterMap
      BrokerMsg.event := by
  unfold State.events
  rw [List.filterMap_filter]
  refine List.filterMap_congr fun msg _ => ?_
  cases msg <;> rfl

omit [DecidableEq T] in
theorem arrivedSubscriptions_eq (s : State T V Unit) : s.arrivedSubscriptions =
    (s.broker.arrived.filter fun msg => msg.client = some .subscriber).filterMap
      BrokerMsg.subscription := by
  unfold State.arrivedSubscriptions
  rw [List.filterMap_filter]
  refine List.filterMap_congr fun msg _ => ?_
  cases msg <;> rfl

/-! ## Switches -/

def behaviorAfter (switches : List BatchMsg) : Behavior :=
  if switches.getLast?.any BatchMsg.isOn then .batchedOn else .batchedOff

/-- Switches are handled in the order in which they arrive, and none is put aside. -/
structure SwitchesOk (s : State T V Unit) : Prop where
  stashed : s.broker.stashed.filterMap BrokerMsg.switch = []
  handled : ∃ switches, switches ++ s.broker.mailbox.filterMap BrokerMsg.switch =
    s.broker.arrived.filterMap BrokerMsg.switch ∧ s.broker.behavior = behaviorAfter switches

omit [DecidableEq T] in
theorem receive_switch (switches : List BatchMsg) (msg : BrokerMsg T V Unit) :
    (receive (behaviorAfter switches) msg).behavior =
      behaviorAfter (switches ++ msg.switch.toList) := by
  cases msg with
  | subscribe =>
    cases h : behaviorAfter switches <;> simp [receive, onSubscribe, BrokerMsg.switch, h]
  | publish =>
    cases h : behaviorAfter switches <;>
      simp [receive, onPublish, onPubBatch, BrokerMsg.switch, h]
  | batch msg =>
    simp [receive, onBatching, BrokerMsg.switch, behaviorAfter]

omit [DecidableEq T] in
theorem receive_stash_switch {b : Behavior} {msg : BrokerMsg T V Unit}
    (h : (receive b msg).stash = true) : msg.switch = none := by
  cases b <;> cases msg <;>
    simp_all [receive, onSubscribe, onPublish, onPubBatch, onBatching, BrokerMsg.switch]

theorem switchesOk {s : State T V Unit} (h : (system T V Unit).Reachable s) : SwitchesOk s := by
  refine h.invariant SwitchesOk ?_ ?_
  · rintro s rfl
    exact ⟨rfl, [], rfl, rfl⟩
  · intro s a t hs hstep
    cases hstep with
    | arrive msg =>
      obtain ⟨switches, hall, hbehavior⟩ := hs.handled
      refine ⟨hs.stashed, switches, ?_, hbehavior⟩
      simp only [Actor.arrive, List.filterMap_append, ← hall, List.append_assoc]
    | broker msg rest hm =>
      obtain ⟨switches, hall, hbehavior⟩ := hs.handled
      have hstashed : (if (receive s.broker.behavior msg).stash then s.broker.stashed ++ [msg]
          else s.broker.stashed).filterMap BrokerMsg.switch = [] := by
        split
        · next hstash => simp [hs.stashed, receive_stash_switch hstash]
        · exact hs.stashed
      refine ⟨?_, switches ++ msg.switch.toList, ?_, ?_⟩
      · simp only [Actor.react]
        split
        · rfl
        · exact hstashed
      · rw [hm] at hall
        simp only [Actor.react, ← hall]
        cases hswitch : msg.switch <;> split <;> simp_all
      · simp only [Actor.react, hbehavior]
        exact receive_switch switches msg
    | worker => exact ⟨hs.stashed, hs.handled⟩

end Nsds.PubSub
