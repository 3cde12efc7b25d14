import Mathlib.Data.List.Nodup
import Mathlib.Data.List.Perm.Subperm
import Nsds.Akka.PubSub.Broker
import Nsds.Akka.PubSub.Sharding

/-!
# From the broker to the subscribers

If every topic has one subscription, an event is lost only if it arrived before the subscription
for its topic. All others are delivered once, and those of one topic in order.
-/

namespace Nsds.PubSub

open Stash Transition
open scoped List

variable {T V S : Type}

def WorkerMsg.event : WorkerMsg T V S → Option (PublishMsg T V)
  | .publish msg => some msg
  | .subscribe _ => none

def WorkerMsg.subscription : WorkerMsg T V S → Option (SubscribeMsg T S)
  | .subscribe sub => some sub
  | .publish _ => none

def Tell.subscription : Tell T V S → Option (Worker × SubscribeMsg T S)
  | (w, .subscribe sub) => some (w, sub)
  | (_, .publish _) => none

def BrokerMsg.subscription : BrokerMsg T V S → Option (SubscribeMsg T S)
  | .subscribe sub => some sub
  | _ => none

/-- The events of a topic. -/
def on [DecidableEq T] (topic : T) (events : List (PublishMsg T V)) : List (PublishMsg T V) :=
  events.filter (·.topic = topic)

section

variable [DecidableEq T] (topic : T)

@[simp] theorem on_nil : on topic ([] : List (PublishMsg T V)) = [] := rfl

@[simp] theorem on_cons (msg : PublishMsg T V) (events : List (PublishMsg T V)) :
    on topic (msg :: events) = if msg.topic = topic then msg :: on topic events
      else on topic events := by
  simp [on, List.filter_cons]

@[simp] theorem on_append (events events' : List (PublishMsg T V)) :
    on topic (events ++ events') = on topic events ++ on topic events' := by
  simp [on]

end

theorem perm_flatMap_on [DecidableEq T] {topics : List T} {events : List (PublishMsg T V)}
    (hnodup : topics.Nodup) (hmem : ∀ msg ∈ events, msg.topic ∈ topics) :
    events ~ topics.flatMap fun topic => on topic events := by
  induction topics generalizing events with
  | nil =>
    obtain rfl : events = [] := List.eq_nil_iff_forall_not_mem.mpr fun msg h => by
      simpa using hmem msg h
    exact .refl _
  | cons topic topics ih =>
    rw [List.nodup_cons] at hnodup
    let others := events.filter fun msg => ! decide (msg.topic = topic)
    have hothers : ∀ topic' ∈ topics, on topic' others = on topic' events := by
      intro topic' htopic'
      simp only [on, others, List.filter_filter]
      refine List.filter_congr fun msg _ => ?_
      by_cases h : msg.topic = topic'
      · have hne : topic' ≠ topic := by
          rintro rfl
          exact hnodup.1 htopic'
        simp [h, hne]
      · simp [h]
    have hperm : others ~ topics.flatMap fun topic' => on topic' others := by
      refine ih hnodup.2 fun msg h => ?_
      simp only [others, List.mem_filter, Bool.not_eq_true', decide_eq_false_iff_not] at h
      exact (List.mem_cons.mp (hmem msg h.1)).resolve_left h.2
    rw [List.flatMap_congr hothers] at hperm
    exact (List.filter_append_perm (fun msg => decide (msg.topic = topic)) events).symm.trans
      (hperm.append_left _)

/-! ## One worker -/

section

variable [DecidableEq T]

/-- The events that find a subscriber, where `topics` have one already. -/
def delivered (topics : List T) : List (WorkerMsg T V S) → List (PublishMsg T V)
  | [] => []
  | .subscribe sub :: msgs => delivered (sub.topic :: topics) msgs
  | .publish msg :: msgs =>
    if msg.topic ∈ topics then msg :: delivered topics msgs else delivered topics msgs

/-- How many events of a topic come before the first subscription for it. -/
def lost (topic : T) : List (WorkerMsg T V S) → Nat
  | [] => 0
  | .subscribe sub :: msgs => if sub.topic = topic then 0 else lost topic msgs
  | .publish msg :: msgs => if msg.topic = topic then lost topic msgs + 1 else lost topic msgs

variable {topics : List T} {topic : T} {msgs : List (WorkerMsg T V S)}

theorem on_delivered_of_mem (h : topic ∈ topics) :
    on topic (delivered topics msgs) = on topic (msgs.filterMap WorkerMsg.event) := by
  induction msgs generalizing topics with
  | nil => rfl
  | cons msg msgs ih =>
    cases msg with
    | subscribe sub => exact ih (List.mem_cons_of_mem _ h)
    | publish msg =>
      rw [List.filterMap_cons_some (by rfl), delivered, on_cons, ← ih h]
      by_cases htopic : msg.topic = topic
      · simp [htopic, h]
      · by_cases hmem : msg.topic ∈ topics <;> simp [htopic, hmem]

theorem on_delivered (h : topic ∉ topics) :
    on topic (delivered topics msgs) =
      (on topic (msgs.filterMap WorkerMsg.event)).drop (lost topic msgs) := by
  induction msgs generalizing topics with
  | nil => rfl
  | cons msg msgs ih =>
    cases msg with
    | subscribe sub =>
      rw [List.filterMap_cons_none (by rfl), delivered, lost]
      split
      · next htopic => exact on_delivered_of_mem (by simp [htopic])
      · next htopic => exact ih (by simp [h, Ne.symm htopic])
    | publish msg =>
      rw [List.filterMap_cons_some (by rfl), delivered, lost, on_cons]
      by_cases htopic : msg.topic = topic
      · simp [htopic, h, ih h]
      · by_cases hmem : msg.topic ∈ topics <;> simp [htopic, hmem, ih h]

theorem lost_of_none (h : ∀ sub ∈ msgs.filterMap WorkerMsg.subscription, sub.topic ≠ topic) :
    lost topic msgs = (on topic (msgs.filterMap WorkerMsg.event)).length := by
  induction msgs with
  | nil => rfl
  | cons msg msgs ih =>
    cases msg with
    | subscribe sub =>
      rw [List.filterMap_cons_some (by rfl), List.forall_mem_cons] at h
      rw [List.filterMap_cons_none (by rfl), lost, if_neg h.1, ih h.2]
    | publish msg =>
      rw [List.filterMap_cons_none (by rfl)] at h
      rw [List.filterMap_cons_some (by rfl), lost, on_cons, ih h]
      split <;> rfl

theorem lost_le_length :
    lost topic msgs ≤ (on topic (msgs.filterMap WorkerMsg.event)).length := by
  induction msgs with
  | nil => exact Nat.le_refl _
  | cons msg msgs ih =>
    cases msg with
    | subscribe sub =>
      rw [List.filterMap_cons_none (by rfl), lost]
      split
      · exact Nat.zero_le _
      · exact ih
    | publish msg =>
      rw [List.filterMap_cons_some (by rfl), lost, on_cons]
      split
      · simpa using ih
      · exact ih

theorem delivered_topic {msg : PublishMsg T V} (h : msg ∈ delivered topics msgs) :
    msg.topic ∈ topics ∨ ∃ sub ∈ msgs.filterMap WorkerMsg.subscription, sub.topic = msg.topic := by
  induction msgs generalizing topics with
  | nil => simp [delivered] at h
  | cons m msgs ih =>
    cases m with
    | subscribe sub =>
      rw [List.filterMap_cons_some (by rfl)]
      rcases ih h with hmem | ⟨sub', hmem, htopic⟩
      · rcases List.mem_cons.mp hmem with htopic | hmem
        · exact .inr ⟨sub, List.mem_cons_self, htopic.symm⟩
        · exact .inl hmem
      · exact .inr ⟨sub', List.mem_cons_of_mem _ hmem, htopic⟩
    | publish m =>
      rw [List.filterMap_cons_none (by rfl)]
      rw [delivered] at h
      split at h
      · next hm =>
        rcases List.mem_cons.mp h with rfl | h
        · exact .inl hm
        · exact ih h
      · exact ih h

theorem lost_le (before : List (WorkerMsg T V S)) (sub : SubscribeMsg T S)
    (after : List (WorkerMsg T V S)) :
    lost sub.topic (before ++ .subscribe sub :: after) ≤
      (on sub.topic (before.filterMap WorkerMsg.event)).length := by
  induction before with
  | nil => simp [lost]
  | cons msg before ih =>
    cases msg with
    | subscribe sub' =>
      rw [List.cons_append, lost, List.filterMap_cons_none (by rfl)]
      split
      · exact Nat.zero_le _
      · exact ih
    | publish msg =>
      rw [List.cons_append, lost, List.filterMap_cons_some (by rfl), on_cons]
      split
      · simpa using ih
      · exact ih

/-- What the subscriber of a topic is told about an event. -/
def notice (subscriber : T → Option S) (msg : PublishMsg T V) : Option (S × NotifyMsg V) :=
  (subscriber msg.topic).map fun subscriber => (subscriber, ⟨msg.value⟩)

theorem filterMap_notice_on {subscriber : T → Option S} {x : S} (h : subscriber topic = some x)
    (events : List (PublishMsg T V)) :
    (on topic events).filterMap (notice subscriber) =
      (on topic events).map fun msg => (x, ⟨msg.value⟩) := by
  rw [← List.filterMap_eq_map]
  refine List.filterMap_congr fun msg hmsg => ?_
  have htopic : msg.topic = topic := by simpa using (List.mem_filter.mp hmsg).2
  simp [notice, htopic, h]

theorem handleAll_delivered {subscriber : T → Option S} {subscriptions : Subscriptions T S}
    (h : ∀ topic, subscriptions topic ≠ none ↔ topic ∈ topics)
    (hsubscriber : ∀ topic x, subscriptions topic = some x → subscriber topic = some x)
    (hmsgs : ∀ sub ∈ msgs.filterMap WorkerMsg.subscription,
      subscriber sub.topic = some sub.sender) :
    (handleAll subscriptions msgs).2 = (delivered topics msgs).filterMap (notice subscriber) := by
  induction msgs generalizing subscriptions topics with
  | nil => rfl
  | cons msg msgs ih =>
    cases msg with
    | subscribe sub =>
      rw [List.filterMap_cons_some (by rfl), List.forall_mem_cons] at hmsgs
      simp only [handleAll, supervised_subscribe, List.nil_append, delivered]
      refine ih (fun topic => ?_) (fun topic x => ?_) hmsgs.2
      · rcases eq_or_ne topic sub.topic with rfl | htopic
        · simp
        · simp [htopic, h topic]
      · rcases eq_or_ne topic sub.topic with rfl | htopic
        · simpa using fun hx => hx ▸ hmsgs.1
        · simpa [htopic] using hsubscriber topic x
    | publish msg =>
      rw [List.filterMap_cons_none (by rfl)] at hmsgs
      simp only [handleAll, supervised_publish, delivered, ih h hsubscriber hmsgs]
      cases hsub : subscriptions msg.topic with
      | none =>
        rw [if_neg (by simp [← h, hsub])]
        rfl
      | some x =>
        rw [if_pos (by simp [← h, hsub])]
        simp [notice, hsubscriber _ _ hsub]

theorem notifications_delivered {subscriber : T → Option S}
    (hmsgs : ∀ sub ∈ msgs.filterMap WorkerMsg.subscription,
      subscriber sub.topic = some sub.sender) :
    notifications msgs = (delivered [] msgs).filterMap (notice subscriber) :=
  handleAll_delivered (by simp) (by simp) hmsgs

end

/-! ## What a worker is told -/

theorem toldTo_event (w : Worker) (tells : List (Tell T V S)) :
    (toldTo w tells).filterMap WorkerMsg.event = tells.filterMap (Tell.event w) := by
  unfold toldTo
  rw [List.filterMap_map, List.filterMap_filter]
  congr 1
  funext ⟨w', msg⟩
  cases msg <;> simp [WorkerMsg.event, Tell.event]

theorem toldTo_subscription (w : Worker) (tells : List (Tell T V S)) :
    (toldTo w tells).filterMap WorkerMsg.subscription =
      ((tells.filterMap Tell.subscription).filter (·.1 = w)).map Prod.snd := by
  unfold toldTo
  rw [List.filterMap_map, List.filterMap_filter, List.filter_filterMap, List.map_filterMap]
  congr 1
  funext ⟨w', msg⟩
  cases msg with
  | subscribe sub =>
    by_cases hw : w' = w <;>
      simp [WorkerMsg.subscription, Tell.subscription, Option.filter_some, hw]
  | publish msg => simp [WorkerMsg.subscription, Tell.subscription]

/-! ## The broker with its workers -/

/-- Subscriptions are passed on at once, each to its worker. -/
structure SubscriptionsOk (s : State T V S) : Prop where
  sent : s.broker.sent.filterMap Tell.subscription ++
      (s.broker.mailbox.filterMap BrokerMsg.subscription).map (fun sub => (sub.worker, sub)) =
    (s.broker.arrived.filterMap BrokerMsg.subscription).map fun sub => (sub.worker, sub)
  stashed : s.broker.stashed.filterMap BrokerMsg.subscription = []

theorem receive_subscription (b : Behavior) (msg : BrokerMsg T V S) :
    (receive b msg).out.filterMap Tell.subscription =
      (msg.subscription.map fun sub => (sub.worker, sub)).toList := by
  cases b <;> cases msg <;> rfl

theorem receive_stash_subscription {b : Behavior} {msg : BrokerMsg T V S}
    (h : (receive b msg).stash = true) : msg.subscription = none := by
  cases b <;> cases msg <;>
    simp_all [receive, onSubscribe, onPublish, onPubBatch, onBatching, BrokerMsg.subscription]

variable [DecidableEq T] {s : State T V S}

theorem subscriptionsOk (h : (system T V S).Reachable s) : SubscriptionsOk s := by
  refine h.invariant SubscriptionsOk ?_ ?_
  · rintro s rfl
    exact ⟨rfl, rfl⟩
  · intro s a t hs hstep
    cases hstep with
    | arrive msg =>
      refine ⟨?_, hs.stashed⟩
      simp only [Actor.arrive, List.filterMap_append, List.map_append, ← hs.sent,
        List.append_assoc]
    | broker msg rest hm =>
      -- what is put aside is no subscription
      have hstashed : (if (receive s.broker.behavior msg).stash then s.broker.stashed ++ [msg]
          else s.broker.stashed).filterMap BrokerMsg.subscription = [] := by
        split
        · next hstash => simp [hs.stashed, receive_stash_subscription hstash]
        · exact hs.stashed
      have hsent := hs.sent
      rw [hm] at hsent
      refine ⟨?_, ?_⟩
      · simp only [Actor.react, List.filterMap_append, receive_subscription, ← hsent]
        cases hsub : msg.subscription <;> split <;> simp_all
      · simp only [Actor.react]
        split
        · rfl
        · exact hstashed
    | worker => exact ⟨hs.sent, hs.stashed⟩

/-- What was sent to a worker before a subscription arrived there earlier. -/
def SubscriptionPlaced (s : State T V S) : Prop :=
  ∀ w pre sub post, s.broker.arrived = pre ++ .subscribe sub :: post →
    Placed (· = .batchedOff) (Tell.event w) BrokerMsg.event (.subscribe sub)
      [(sub.worker, .subscribe sub)] pre s.broker

theorem subscriptionPlaced (h : (system T V S).Reachable s) : SubscriptionPlaced s := by
  have hboth := h.invariant
    (fun s => (∀ w, InOrder (· = .batchedOff) (Tell.event w) BrokerMsg.event s.broker) ∧
      SubscriptionPlaced s) ?_ ?_
  · exact hboth.2
  · rintro s rfl
    refine ⟨fun w => .new _, fun w pre sub post harrived => ?_⟩
    simp [State.new, Actor.new] at harrived
  · rintro s a t ⟨horder, hs⟩ hstep
    cases hstep with
    | arrive msg =>
      refine ⟨fun w => (horder w).arrive msg, fun w pre sub post harrived => ?_⟩
      simp only [Actor.arrive] at harrived
      rcases List.eq_nil_or_concat post with rfl | ⟨post, last, rfl⟩
      · obtain ⟨rfl, hmsg⟩ := List.append_inj' harrived rfl
        obtain rfl : msg = .subscribe sub := by simpa using hmsg
        exact .arrived (horder w)
      · rw [List.concat_eq_append, ← List.cons_append, ← List.append_assoc] at harrived
        exact (hs w pre sub post (List.append_inj' harrived rfl).1).arrive msg
    | broker msg rest hm =>
      refine ⟨fun w => (horder w).react (receive_lawful w) hm, fun w pre sub post harrived => ?_⟩
      refine (hs w pre sub post harrived).react (receive_lawful w) (fun b => ?_) hm
      cases b <;> rfl
    | worker => exact ⟨horder, hs⟩

/-- What a worker notifies comes to the subscribers in this order. -/
def WorkersInOrder (s : State T V S) : Prop :=
  ∃ done : Worker → List (WorkerMsg T V S), (∀ w, done w ++ s.mailbox w = toldTo w s.broker.sent) ∧
    (∀ w, s.subscriptions w = table (done w)) ∧ ∀ w, notifications (done w) <+ s.notified

theorem workersInOrder (h : (system T V S).Reachable s) : WorkersInOrder s := by
  refine h.invariant WorkersInOrder ?_ ?_
  · rintro s rfl
    exact ⟨fun _ => [], fun _ => rfl, fun _ => rfl, fun _ => .refl _⟩
  · rintro s a t ⟨done, htold, htable, hnotified⟩ hstep
    cases hstep with
    | arrive => exact ⟨done, htold, htable, hnotified⟩
    | broker msg rest hm =>
      refine ⟨done, fun w => ?_, htable, hnotified⟩
      simp only [Actor.react, toldTo_append, ← htold w, List.append_assoc]
    | worker w msg rest hm =>
      refine ⟨Function.update done w (done w ++ [msg]), fun w' => ?_, fun w' => ?_, fun w' => ?_⟩
      · rcases eq_or_ne w' w with rfl | hw
        · simp [← htold, hm]
        · simp [hw, htold]
      · rcases eq_or_ne w' w with rfl | hw
        · simp [table_append, htable]
        · simp [hw, htable]
      · rcases eq_or_ne w' w with rfl | hw
        · simpa [notifications_append, htable] using
            (hnotified w').append_right (msg.supervised (table (done w'))).2
        · simpa [hw] using (hnotified w').trans (List.sublist_append_left _ _)

/-! ## At rest -/

/-- Nobody has a message to handle, and nothing is put aside. -/
structure AtRest (s : State T V S) : Prop where
  broker : s.broker.mailbox = []
  behavior : s.broker.behavior = .batchedOff
  workers : ∀ w, s.mailbox w = []

/-- The subscriptions that have come to the broker. -/
def State.arrivedSubscriptions (s : State T V S) : List (SubscribeMsg T S) :=
  s.broker.arrived.filterMap BrokerMsg.subscription

/-- The subscriber is told of all events of its topic but the first `n`. -/
def State.notices (s : State T V S) (sub : SubscribeMsg T S) (n : Nat) : List (S × NotifyMsg V) :=
  ((on sub.topic s.events).drop n).map fun msg => (sub.sender, ⟨msg.value⟩)

/-- Who subscribed to the topic first. -/
def State.subscriber (s : State T V S) (topic : T) : Option S :=
  (s.arrivedSubscriptions.find? (·.topic = topic)).map SubscribeMsg.sender

/-- How many events of a topic were lost: both workers have lost them. -/
def State.lost (s : State T V S) (topic : T) : Nat :=
  min (PubSub.lost topic (toldTo .oddWorker s.broker.sent))
    (PubSub.lost topic (toldTo .evenWorker s.broker.sent))

section

variable (h : (system T V S).Reachable s) (hrest : AtRest s)

include h hrest

theorem told_events (w : Worker) :
    (toldTo w s.broker.sent).filterMap WorkerMsg.event = s.events := by
  rw [toldTo_event]
  exact (broker_inOrder h w).sent_all hrest.behavior hrest.broker

theorem told_subscriptions (w : Worker) :
    (toldTo w s.broker.sent).filterMap WorkerMsg.subscription =
      s.arrivedSubscriptions.filter (·.worker = w) := by
  have hsent := (subscriptionsOk h).sent
  rw [hrest.broker, List.filterMap_nil, List.map_nil, List.append_nil] at hsent
  rw [toldTo_subscription, hsent, List.filter_map, List.map_map]
  simp [State.arrivedSubscriptions, Function.comp_def]

omit h hrest in
theorem subscriber_eq (hnodup : (s.arrivedSubscriptions.map SubscribeMsg.topic).Nodup)
    {sub : SubscribeMsg T S} (hsub : sub ∈ s.arrivedSubscriptions) :
    s.subscriber sub.topic = some sub.sender := by
  unfold State.subscriber
  cases hfind : s.arrivedSubscriptions.find? (·.topic = sub.topic) with
  | none => simpa using List.find?_eq_none.mp hfind sub hsub
  | some sub' =>
    have htopic : sub'.topic = sub.topic := by simpa using List.find?_some hfind
    obtain rfl := List.inj_on_of_nodup_map hnodup (List.mem_of_find?_eq_some hfind) hsub htopic
    rfl

theorem on_delivered_worker (hnodup : (s.arrivedSubscriptions.map SubscribeMsg.topic).Nodup)
    {sub : SubscribeMsg T S} (hsub : sub ∈ s.arrivedSubscriptions) (w : Worker) :
    on sub.topic (delivered [] (toldTo w s.broker.sent)) =
      if w = sub.worker then (on sub.topic s.events).drop (s.lost sub.topic) else [] := by
  have hother : ∀ w, w ≠ sub.worker →
      PubSub.lost sub.topic (toldTo w s.broker.sent) = (on sub.topic s.events).length := by
    intro w hw
    rw [lost_of_none, told_events h hrest]
    rw [told_subscriptions h hrest]
    intro sub' hsub' htopic
    obtain ⟨hmem, hworker⟩ := List.mem_filter.mp hsub'
    obtain rfl := List.inj_on_of_nodup_map hnodup hmem hsub htopic
    exact hw (of_decide_eq_true hworker).symm
  have hle : ∀ w, PubSub.lost sub.topic (toldTo w s.broker.sent) ≤
      (on sub.topic s.events).length := by
    intro w
    rw [← told_events h hrest w]
    exact lost_le_length
  rw [on_delivered (by simp), told_events h hrest]
  split
  · next hw =>
    have hlost : s.lost sub.topic = PubSub.lost sub.topic (toldTo w s.broker.sent) := by
      unfold State.lost
      cases w with
      | oddWorker =>
        have heven := hother .evenWorker (by simp [← hw])
        rw [heven, Nat.min_eq_left (hle .oddWorker)]
      | evenWorker =>
        have hodd := hother .oddWorker (by simp [← hw])
        rw [hodd, Nat.min_eq_right (hle .evenWorker)]
    rw [hlost]
  · next hw => rw [hother w hw, List.drop_length]

theorem notifications_told (hnodup : (s.arrivedSubscriptions.map SubscribeMsg.topic).Nodup)
    (w : Worker) : notifications (toldTo w s.broker.sent) =
      (delivered [] (toldTo w s.broker.sent)).filterMap (notice s.subscriber) := by
  refine notifications_delivered fun sub hsub => subscriber_eq hnodup ?_
  rw [told_subscriptions h hrest] at hsub
  exact (List.mem_filter.mp hsub).1

theorem notified_perm (hnodup : (s.arrivedSubscriptions.map SubscribeMsg.topic).Nodup) :
    s.notified ~ s.arrivedSubscriptions.flatMap fun sub => s.notices sub (s.lost sub.topic) := by
  obtain ⟨done, htold, -, hnotified⟩ := workersOk h
  have hdone : ∀ w, done w = toldTo w s.broker.sent := fun w => by
    rw [← htold w, hrest.workers, List.append_nil]
  rw [hdone, hdone, notifications_told h hrest hnodup, notifications_told h hrest hnodup,
    ← List.filterMap_append] at hnotified
  have hmem : ∀ msg ∈ delivered [] (toldTo .oddWorker s.broker.sent) ++
      delivered [] (toldTo .evenWorker s.broker.sent),
      msg.topic ∈ s.arrivedSubscriptions.map SubscribeMsg.topic := by
    intro msg hmsg
    have hworker : ∃ w, msg ∈ delivered [] (toldTo w s.broker.sent) := by
      rcases List.mem_append.mp hmsg with hodd | heven
      · exact ⟨_, hodd⟩
      · exact ⟨_, heven⟩
    obtain ⟨w, hw⟩ := hworker
    obtain ⟨sub, hsub, htopic⟩ := (delivered_topic hw).resolve_left (by simp)
    rw [told_subscriptions h hrest] at hsub
    exact List.mem_map.mpr ⟨sub, (List.mem_filter.mp hsub).1, htopic⟩
  refine hnotified.trans (((perm_flatMap_on hnodup hmem).filterMap _).trans (.of_eq ?_))
  rw [List.filterMap_flatMap, List.flatMap_map]
  refine List.flatMap_congr fun sub hsub => ?_
  rw [filterMap_notice_on (subscriber_eq hnodup hsub), on_append,
    on_delivered_worker h hrest hnodup hsub, on_delivered_worker h hrest hnodup hsub]
  cases sub.worker <;> simp [State.notices]

theorem notices_sublist (hnodup : (s.arrivedSubscriptions.map SubscribeMsg.topic).Nodup)
    {sub : SubscribeMsg T S} (hsub : sub ∈ s.arrivedSubscriptions) :
    s.notices sub (s.lost sub.topic) <+ s.notified := by
  obtain ⟨done, htold, -, hnotified⟩ := workersInOrder h
  have hdone := htold sub.worker
  rw [hrest.workers, List.append_nil] at hdone
  have hdelivered := on_delivered_worker h hrest hnodup hsub sub.worker
  rw [if_pos rfl] at hdelivered
  unfold State.notices
  rw [← hdelivered, ← filterMap_notice_on (subscriber_eq hnodup hsub)]
  refine (List.filter_sublist.filterMap _).trans ?_
  rw [← notifications_told h hrest hnodup, ← hdone]
  exact hnotified sub.worker

theorem State.lost_le {pre post : List (BrokerMsg T V S)} {sub : SubscribeMsg T S}
    (harrived : s.broker.arrived = pre ++ .subscribe sub :: post) :
    s.lost sub.topic ≤ (on sub.topic (pre.filterMap BrokerMsg.event)).length := by
  have hworker : s.lost sub.topic ≤
      PubSub.lost sub.topic (toldTo sub.worker s.broker.sent) := by
    unfold State.lost
    cases sub.worker with
    | oddWorker => exact Nat.min_le_left _ _
    | evenWorker => exact Nat.min_le_right _ _
  cases subscriptionPlaced h sub.worker pre sub post harrived with
  | waiting before after hmailbox =>
    rw [hrest.broker] at hmailbox
    simp at hmailbox
  | handled before after hsent hle =>
    refine Nat.le_trans hworker ?_
    have htold : toldTo sub.worker [(sub.worker, (.subscribe sub : WorkerMsg T V S))] =
        [.subscribe sub] := by
      simp [toldTo]
    rw [hsent, toldTo_append, toldTo_append, htold, List.singleton_append]
    refine Nat.le_trans (PubSub.lost_le _ _ _) ?_
    rw [toldTo_event]
    exact (hle.sublist.filter _).length_le

/-- If every topic has one subscription, the subscriber is notified of all events of the topic but
for some that arrived before the subscription: of each once, and in order. -/
theorem delivery (hnodup : (s.arrivedSubscriptions.map SubscribeMsg.topic).Nodup) :
    s.notified ~ (s.arrivedSubscriptions.flatMap fun sub =>
      s.notices sub (s.lost sub.topic)) ∧
    (∀ sub ∈ s.arrivedSubscriptions, s.notices sub (s.lost sub.topic) <+ s.notified) ∧
    ∀ pre sub post, s.broker.arrived = pre ++ .subscribe sub :: post →
      s.lost sub.topic ≤ (on sub.topic (pre.filterMap BrokerMsg.event)).length :=
  ⟨notified_perm h hrest hnodup, fun _ hsub => notices_sublist h hrest hnodup hsub,
    fun _ _ _ harrived => State.lost_le h hrest harrived⟩

end

theorem delivery_two : ∃ s : State Nat Nat Nat, s.notified = [(5, ⟨8⟩)] ∧
    s.notified ~ s.arrivedSubscriptions.flatMap fun sub => s.notices sub (s.lost sub.topic) := by
  have h0 : (system Nat Nat Nat).Reachable .new := .start rfl
  have h1 := h0.step (.arrive (.publish ⟨0, 7⟩))
  have h2 := h1.step (.arrive (.subscribe ⟨1, 0, 5⟩))
  have h3 := h2.step (.arrive (.publish ⟨0, 8⟩))
  have h4 := h3.step (.broker _ _ rfl)
  have h5 := h4.step (.broker _ _ rfl)
  have h6 := h5.step (.broker _ _ rfl)
  have h7 := h6.step (.worker .oddWorker _ _ rfl)
  have h8 := h7.step (.worker .oddWorker _ _ rfl)
  have h9 := h8.step (.worker .oddWorker _ _ rfl)
  have h10 := h9.step (.worker .evenWorker _ _ rfl)
  have h11 := h10.step (.worker .evenWorker _ _ rfl)
  refine ⟨_, rfl, (delivery h11 ⟨rfl, rfl, fun w => ?_⟩ (by decide)).1⟩
  cases w <;> rfl

end Nsds.PubSub
