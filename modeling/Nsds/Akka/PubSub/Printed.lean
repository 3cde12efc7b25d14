import Mathlib.Algebra.Order.Ring.Nat
import Nsds.Akka.PubSub.Main

/-!
# What `PubSub.java` prints

Every run of the program ends. A switch may give the broker back what it had put aside, and
everything else that happens is work done.
-/

namespace Nsds.PubSub

open Stash Transition
open scoped List

variable {T V : Type} [DecidableEq T] {requests : Client → List (BrokerMsg T V Unit)}
  {x : Program T V} {subscriptions : List (SubscribeMsg T Unit)}
  {before after : List (PublishMsg T V)}

/-! ## How it ends -/

/-- Nobody has anything to do. -/
def Program.AtRest (x : Program T V) : Prop :=
  x.main = [] ∧ (∀ c, x.mailbox c = []) ∧ x.state.broker.mailbox = [] ∧
    ∀ w, x.state.mailbox w = []

theorem Program.progress (hrest : ¬ x.AtRest) : ∃ turn y, Program.Step x turn y := by
  by_contra hstuck
  apply hrest
  refine ⟨?_, fun c => ?_, ?_, fun w => ?_⟩
  · by_contra hmain
    obtain ⟨_ | msg, rest, hcons⟩ := List.exists_cons_of_ne_nil hmain
    · exact hstuck ⟨_, _, .tellClient hcons⟩
    · exact hstuck ⟨_, _, .tellBroker hcons⟩
  · by_contra hmailbox
    obtain ⟨msg, rest, hcons⟩ := List.exists_cons_of_ne_nil hmailbox
    cases hr : c.receive (x.broker c) msg with
    | ok r => exact hstuck ⟨_, _, .client hcons hr⟩
    | error e => exact hstuck ⟨_, _, .restart hcons hr⟩
  · by_contra hmailbox
    obtain ⟨msg, rest, hcons⟩ := List.exists_cons_of_ne_nil hmailbox
    exact hstuck ⟨_, _, .broker (.broker msg rest hcons)⟩
  · by_contra hmailbox
    obtain ⟨msg, rest, hcons⟩ := List.exists_cons_of_ne_nil hmailbox
    exact hstuck ⟨_, _, .worker (.worker w msg rest hcons)⟩

/-! ## Every run ends -/

/-- How many turns a message takes at most until nothing is left of it, if no switch is
handled. -/
def ClientMsg.work : ClientMsg T V → Nat
  | .config => 1
  | .subscribe _ => 4
  | .publish _ => 6
  | .notify _ => 1

def BrokerMsg.work : BrokerMsg T V Unit → Nat
  | .subscribe _ => 3
  | .publish _ => 5
  | .batch _ => 0

def MainTell.work : MainTell T V → Nat
  | .client _ msg => msg.work + 1
  | .broker _ => 1

/-- A bound on the turns that are left. -/
def Program.work (x : Program T V) : Nat :=
  (x.main.map MainTell.work).sum + ((x.mailbox .publisher).map ClientMsg.work).sum +
    ((x.mailbox .subscriber).map ClientMsg.work).sum +
    (x.state.broker.mailbox.map BrokerMsg.work).sum +
    2 * ((x.state.mailbox .oddWorker).length + (x.state.mailbox .evenWorker).length)

/-- The switches that the broker has yet to handle. -/
def Program.switchesLeft (x : Program T V) : Nat :=
  (x.main.filterMap MainTell.switch).length +
    (x.state.broker.mailbox.filterMap BrokerMsg.switch).length

/-- A switch may give the broker back what was put aside, and everything else is work done. -/
def Program.Less (y x : Program T V) : Prop :=
  Prod.Lex (· < ·) (· < ·) (y.switchesLeft, y.work) (x.switchesLeft, x.work)

omit [DecidableEq T] in
theorem Program.Less.of_work {y : Program T V} (hswitches : y.switchesLeft = x.switchesLeft)
    (hwork : y.work < x.work) : y.Less x := by
  unfold Program.Less
  rw [hswitches]
  exact .right _ hwork

omit [DecidableEq T] in
theorem due_work (c : Client) (msg : ClientMsg T V) :
    ((c.due msg).toList.map BrokerMsg.work).sum < msg.work := by
  cases c <;> cases msg <;> simp [Client.due, ClientMsg.work, BrokerMsg.work]

omit [DecidableEq T] in
theorem due_switch (c : Client) (msg : ClientMsg T V) :
    (c.due msg).toList.filterMap BrokerMsg.switch = [] := by
  cases c <;> cases msg <;> simp [Client.due, BrokerMsg.switch]

theorem supervised_length (subscriptions : Subscriptions T Unit) (msg : WorkerMsg T V Unit) :
    (msg.supervised subscriptions).2.length ≤ 1 := by
  cases msg with
  | subscribe sub => simp [supervised_subscribe]
  | publish msg =>
    rw [supervised_publish]
    cases subscriptions msg.topic <;> simp

omit [DecidableEq T] in
theorem handled_less {c : Client} {msg : ClientMsg T V} {rest : List (ClientMsg T V)}
    {r : Handled T V} (hm : x.mailbox c = msg :: rest) (htold : r.told = c.due msg) :
    (x.handled c rest r).Less x := by
  have hmailbox : (x.handled c rest r).state.broker.mailbox =
      x.state.broker.mailbox ++ (c.due msg).toList := by
    unfold Program.handled
    rw [htold]
    cases c.due msg <;> simp [State.tell, Actor.arrive]
  have hworkers : (x.handled c rest r).state.mailbox = x.state.mailbox := by
    unfold Program.handled
    cases r.told <;> rfl
  have hdue := due_work c msg
  apply Program.Less.of_work
  · unfold Program.switchesLeft
    rw [hmailbox, List.filterMap_append, due_switch, List.append_nil]
    rfl
  · unfold Program.work
    rw [hmailbox, hworkers, List.map_append, List.sum_append]
    cases c with
    | publisher =>
      simp [Program.handled, hm]
      omega
    | subscriber =>
      simp [Program.handled, hm]
      omega

omit [DecidableEq T] in
theorem receive_work (b : Behavior) {msg : BrokerMsg T V Unit} (hmsg : msg.switch = none) :
    (receive b msg).unstashAll = false ∧
      2 * ((toldTo .oddWorker (receive b msg).out).length +
        (toldTo .evenWorker (receive b msg).out).length) < msg.work := by
  cases msg with
  | subscribe sub =>
    cases b <;> cases hw : sub.worker <;> simp [receive, onSubscribe, toldTo, BrokerMsg.work, hw]
  | publish msg =>
    cases b <;> simp [receive, onPublish, onPubBatch, toldTo, BrokerMsg.work]
  | batch msg => simp [BrokerMsg.switch] at hmsg

theorem broker_less {state : State T V Unit} (h : (system T V Unit).Reachable x.state)
    (hstep : PubSub.Step x.state .broker state) : Program.Less { x with state } x := by
  cases hstep with
  | broker msg rest hm =>
  cases hswitch : msg.switch with
  | none =>
    obtain ⟨hunstash, hwork⟩ := receive_work x.state.broker.behavior hswitch
    apply Program.Less.of_work
    · unfold Program.switchesLeft
      simp [Actor.react, hunstash, hm, hswitch]
    · unfold Program.work
      simp [Actor.react, hunstash, hm]
      omega
  | some switch =>
    have hstashed := (switchesOk h).stashed
    apply Prod.Lex.left
    unfold Program.switchesLeft
    simp only [Actor.react, hm]
    cases msg with
    | batch msg =>
      cases hon : msg.isOn <;>
        simp [receive, onBatching, BrokerMsg.switch, hon, hstashed]
    | _ => simp [BrokerMsg.switch] at hswitch

theorem worker_less {state : State T V Unit} (hstep : PubSub.Step x.state .worker state) :
    (x.worked state).Less x := by
  cases hstep with
  | worker w msg rest hm =>
  have hlength := supervised_length (x.state.subscriptions w) msg
  apply Program.Less.of_work
  · rfl
  · unfold Program.work Program.worked
    have hnotices (notices : List (Unit × NotifyMsg V)) :
        ((notices.map fun n => (.notify n.2 : ClientMsg T V)).map ClientMsg.work).sum =
          notices.length := by
      induction notices with
      | nil => rfl
      | cons n notices ih => simp [ClientMsg.work] at ih ⊢; omega
    simp only [Function.update_self, List.drop_left, List.map_append, List.sum_append, hnotices]
    cases w with
    | oddWorker =>
      simp [hm]
      omega
    | evenWorker =>
      simp [hm]
      omega

theorem Program.Inv.less {y : Program T V} {turn : Turn} (h : x.Inv requests)
    (hstep : Program.Step x turn y) : y.Less x := by
  cases hstep with
  | @tellClient c msg rest hmain =>
    apply Program.Less.of_work
    · unfold Program.switchesLeft
      rw [hmain]
      rfl
    · unfold Program.work
      cases c with
      | publisher =>
        simp [hmain, MainTell.work]
        omega
      | subscriber =>
        simp [hmain, MainTell.work]
        omega
  | @tellBroker msg rest hmain =>
    apply Program.Less.of_work
    · unfold Program.switchesLeft
      simp [hmain, State.tell, Actor.arrive, MainTell.switch, BrokerMsg.switch]
      omega
    · unfold Program.work
      simp [hmain, State.tell, Actor.arrive, MainTell.work, BrokerMsg.work]
  | client hm hr =>
    obtain ⟨r', hr', htold, -⟩ := h.receive hm
    obtain rfl := Except.ok.inj (hr.symm.trans hr')
    exact handled_less hm htold
  | restart hm hr =>
    obtain ⟨_, hok, -⟩ := h.receive hm
    rw [hok] at hr
    cases hr
  | broker hstep => exact broker_less h.state hstep
  | worker hstep => exact worker_less hstep

/-! ## What is printed -/

theorem Program.Inv.atRest (h : x.Inv (requested subscriptions (before ++ after)))
    (hrest : x.AtRest) : PubSub.AtRest x.state ∧ x.state.events = before ++ after ∧
      x.state.arrivedSubscriptions = subscriptions ∧
      x.printed = x.state.notified.map fun n => n.2.value := by
  obtain ⟨hmain, hclients, hbroker, hworkers⟩ := hrest
  have hrequests (c : Client) : x.state.broker.arrived.filter (fun msg => msg.client = some c) =
      requested subscriptions (before ++ after) c := by
    rw [← h.requests c]
    simp [Program.requests, Program.pending, hmain, hclients]
  refine ⟨⟨hbroker, ?_, hworkers⟩, ?_, ?_, ?_⟩
  · obtain ⟨switches, hall, hbehavior⟩ := (switchesOk h.state).handled
    have hswitches := h.switches
    unfold Program.switches at hswitches
    rw [hmain, List.filterMap_nil, List.append_nil, ← hall, hbroker, List.filterMap_nil,
      List.append_nil] at hswitches
    rw [hbehavior, hswitches]
    rfl
  · rw [events_eq, hrequests, requested, List.filterMap_map]
    exact List.filterMap_some
  · rw [arrivedSubscriptions_eq, hrequests, requested, List.filterMap_map]
    exact List.filterMap_some
  · rw [← h.printed, hclients, List.filterMap_nil, List.append_nil]

/-- The values of the events of a topic, but for the first `n`. -/
def values (events : List (PublishMsg T V)) (topic : T) (n : Nat) : List V :=
  ((on topic events).drop n).map PublishMsg.value

theorem notices_value (s : State T V Unit) (sub : SubscribeMsg T Unit) (n : Nat) :
    (s.notices sub n).map (fun n => n.2.value) = values s.events sub.topic n := by
  simp [State.notices, values, Function.comp_def]

/-- The two clients know the broker by the time that they are to tell it something. Every run
ends, and with everything handled. If every topic is subscribed to once, the subscriber has then
printed all events of its topics but for some that arrived at the broker before the subscription:
each once, and those of one topic in order. -/
theorem events_printed (hnodup : (subscriptions.map SubscribeMsg.topic).Nodup)
    (h : (program subscriptions before after).Reachable x) :
    (∀ c msg rest, x.mailbox c = msg :: rest → ∃ r, c.receive (x.broker c) msg = .ok r) ∧
    (∀ run : Nat → Program T V, run 0 = x →
      ∃ n, ∀ turn, ¬ Program.Step (run n) turn (run (n + 1))) ∧
    ((∃ turn y, Program.Step x turn y) ∨
      x.AtRest ∧ ∃ lost : T → Nat,
        x.printed ~ (subscriptions.flatMap fun sub =>
          values (before ++ after) sub.topic (lost sub.topic)) ∧
        (∀ sub ∈ subscriptions,
          values (before ++ after) sub.topic (lost sub.topic) <+ x.printed) ∧
        ∀ pre sub post, x.state.broker.arrived = pre ++ .subscribe sub :: post →
          lost sub.topic ≤ (on sub.topic (pre.filterMap BrokerMsg.event)).length) := by
  have hinv := Program.Inv.reachable h
  refine ⟨fun c msg rest hm => ?_, ?_, ?_⟩
  · obtain ⟨r, hr, -⟩ := hinv.receive hm
    exact ⟨r, hr⟩
  · rintro run rfl
    refine h.ends (Prod.lex Nat.lt_wfRel Nat.lt_wfRel).wf
      (fun x : Program T V => (x.switchesLeft, x.work)) (fun s _ t hs hstep => ?_)
    exact (Program.Inv.reachable hs).less hstep
  · by_cases hrest : x.AtRest
    · right
      obtain ⟨hstate, hevents, hsubscriptions, hprinted⟩ := hinv.atRest hrest
      subst hsubscriptions
      refine ⟨hrest, x.state.lost, ?_, fun sub hsub => ?_, fun pre sub post harrived => ?_⟩
      · rw [hprinted, ← hevents]
        have hperm := (notified_perm hinv.state hstate hnodup).map fun n => n.2.value
        rw [List.map_flatMap] at hperm
        simpa only [notices_value] using hperm
      · rw [hprinted, ← hevents, ← notices_value]
        exact (notices_sublist hinv.state hstate hnodup hsub).map _
      · exact State.lost_le hinv.state hstate harrived
    · exact .inl (Program.progress hrest)

theorem events_printed_one : ∃ x : Program Nat Nat, x.printed = [7] ∧
    ((∃ turn y, Program.Step x turn y) ∨ x.AtRest ∧ ∃ lost : Nat → Nat,
      x.printed ~ values [⟨0, 7⟩] 0 (lost 0)) := by
  have hend (x : Program Nat Nat) (h : (program [⟨1, 0, ()⟩] [] [⟨0, 7⟩]).Reachable x) :
      (∃ turn y, Program.Step x turn y) ∨ x.AtRest ∧ ∃ lost : Nat → Nat,
        x.printed ~ values [⟨0, 7⟩] 0 (lost 0) := by
    refine (events_printed (by simp) h).2.2.imp_right ?_
    rintro ⟨hrest, lost, hprinted, -⟩
    exact ⟨hrest, lost, by simpa using hprinted⟩
  have h0 : (program [⟨1, 0, ()⟩] [] [⟨0, 7⟩]).Reachable _ := .start rfl
  have h1 := h0.step (.tellClient rfl)
  have h2 := h1.step (.tellClient rfl)
  have h3 := h2.step (.tellClient rfl)
  have h4 := h3.step (.client (c := .subscriber) rfl rfl)
  have h5 := h4.step (.client (c := .subscriber) rfl rfl)
  have h6 := h5.step (.tellBroker rfl)
  have h7 := h6.step (.tellClient rfl)
  have h8 := h7.step (.client (c := .publisher) rfl rfl)
  have h9 := h8.step (.client (c := .publisher) rfl rfl)
  have h10 := h9.step (.tellBroker rfl)
  have h11 := h10.step (.broker (.broker _ _ rfl))
  have h12 := h11.step (.broker (.broker _ _ rfl))
  have h13 := h12.step (.broker (.broker _ _ rfl))
  have h14 := h13.step (.broker (.broker _ _ rfl))
  have h15 := h14.step (.broker (.broker _ _ rfl))
  have h16 := h15.step (.worker (.worker .oddWorker _ _ rfl))
  have h17 := h16.step (.worker (.worker .oddWorker _ _ rfl))
  have h18 := h17.step (.worker (.worker .evenWorker _ _ rfl))
  have h19 := h18.step (.client (c := .subscriber) rfl rfl)
  exact ⟨_, by rfl, hend _ h19⟩

end Nsds.PubSub
