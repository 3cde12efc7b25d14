import Mathlib.Data.List.Perm.Subperm
import Nsds.Akka.PubSub.Code
import Nsds.Lib.History

/-!
# Two workers instead of one

A worker keeps the last subscriber of a topic that it was told about. Two workers may
keep two, and then both are notified where one worker would notify the last.
-/

namespace Nsds.PubSub

open History Stash Transition
open scoped List

variable {T V S : Type}

/-- `WorkerMsg`s are all that arrives as long as nobody switches batching. -/
def BrokerMsg.toWorker : BrokerMsg T V S → Option (WorkerMsg T V S)
  | .subscribe msg => some (.subscribe msg)
  | .publish msg => some (.publish msg)
  | .batch _ => none

def WorkerMsg.goesTo (w : Worker) : WorkerMsg T V S → Bool
  | .subscribe msg => msg.worker = w
  | .publish _ => true

/-- The messages that the broker passes on to `w`. -/
def route (w : Worker) (msgs : List (WorkerMsg T V S)) : List (WorkerMsg T V S) :=
  msgs.filter (WorkerMsg.goesTo w)

/-- Some event comes when both workers have a subscriber for its topic. -/
def Mixed (msgs : List (WorkerMsg T V S)) : Prop :=
  ∃ pre msg post, msgs = pre ++ .publish msg :: post ∧
    ∀ w, ∃ sub, .subscribe sub ∈ pre ∧ sub.topic = msg.topic ∧ sub.worker = w

/-- An event of a topic for which both workers have a subscriber. -/
def MixedAt (pre : List (WorkerMsg T V S)) (msg : WorkerMsg T V S) : Prop :=
  ∃ event, msg = .publish event ∧
    ∀ w, ∃ sub, .subscribe sub ∈ pre ∧ sub.topic = event.topic ∧ sub.worker = w

theorem mixed_iff {msgs : List (WorkerMsg T V S)} :
    Mixed msgs ↔ ¬ Each (fun pre msg => ¬ MixedAt pre msg) msgs := by
  constructor
  · rintro ⟨pre, event, post, heq, hboth⟩ heach
    exact heach pre _ post heq ⟨event, rfl, hboth⟩
  · intro heach
    obtain ⟨pre, msg, post, heq, -, hmixed⟩ := exists_first_not heach
    obtain ⟨event, rfl, hboth⟩ := not_not.mp hmixed
    exact ⟨pre, event, post, heq, hboth⟩

theorem mixed_append {msgs : List (WorkerMsg T V S)} {msg : WorkerMsg T V S} :
    Mixed (msgs ++ [msg]) ↔ Mixed msgs ∨ MixedAt msgs msg := by
  rw [mixed_iff, mixed_iff, each_append_singleton, not_and_or, not_not]

theorem mixed_append_publish {msgs : List (WorkerMsg T V S)} {msg : PublishMsg T V} :
    Mixed (msgs ++ [.publish msg]) ↔ Mixed msgs ∨
      ∀ w, ∃ sub, .subscribe sub ∈ msgs ∧ sub.topic = msg.topic ∧ sub.worker = w := by
  rw [mixed_append]
  simp [MixedAt]

theorem mixed_append_subscribe {msgs : List (WorkerMsg T V S)} {sub : SubscribeMsg T S} :
    Mixed (msgs ++ [.subscribe sub]) ↔ Mixed msgs := by
  rw [mixed_append]
  simp [MixedAt]

variable [DecidableEq T]

/-! ## One worker -/

theorem handleAll_append (subscriptions : Subscriptions T S) (msgs msgs' : List (WorkerMsg T V S)) :
    handleAll subscriptions (msgs ++ msgs') =
      ((handleAll (handleAll subscriptions msgs).1 msgs').1,
        (handleAll subscriptions msgs).2 ++
          (handleAll (handleAll subscriptions msgs).1 msgs').2) := by
  induction msgs generalizing subscriptions with
  | nil => rfl
  | cons msg msgs ih => simp [handleAll, ih]

/-- The subscriptions after the messages. -/
def table (msgs : List (WorkerMsg T V S)) : Subscriptions T S := (handleAll (fun _ => none) msgs).1

def notifications (msgs : List (WorkerMsg T V S)) : List (S × NotifyMsg V) :=
  (handleAll (fun _ => none) msgs).2

@[simp] theorem table_nil : table ([] : List (WorkerMsg T V S)) = fun _ => none := rfl

@[simp] theorem notifications_nil : notifications ([] : List (WorkerMsg T V S)) = [] := rfl

theorem table_append (msgs : List (WorkerMsg T V S)) (msg : WorkerMsg T V S) :
    table (msgs ++ [msg]) = (msg.supervised (table msgs)).1 := by
  unfold table
  rw [handleAll_append]
  rfl

theorem notifications_append (msgs : List (WorkerMsg T V S)) (msg : WorkerMsg T V S) :
    notifications (msgs ++ [msg]) = notifications msgs ++ (msg.supervised (table msgs)).2 := by
  unfold notifications
  rw [handleAll_append]
  simp [handleAll, table]

theorem supervised_subscribe (subscriptions : Subscriptions T S) (sub : SubscribeMsg T S) :
    (WorkerMsg.subscribe sub : WorkerMsg T V S).supervised subscriptions =
      (Function.update subscriptions sub.topic (some sub.sender), []) := rfl

theorem supervised_publish (subscriptions : Subscriptions T S) (msg : PublishMsg T V) :
    (WorkerMsg.publish msg : WorkerMsg T V S).supervised subscriptions =
      (subscriptions, ((subscriptions msg.topic).map fun subscriber =>
        (subscriber, (⟨msg.value⟩ : NotifyMsg V))).toList) := by
  unfold WorkerMsg.supervised WorkerMsg.handle
  cases h : subscriptions msg.topic <;> simp [h]

/-! ## Two workers -/

omit [DecidableEq T] in
@[simp] theorem route_nil (w : Worker) : route w ([] : List (WorkerMsg T V S)) = [] := rfl

omit [DecidableEq T] in
theorem route_publish (w : Worker) (msgs : List (WorkerMsg T V S)) (msg : PublishMsg T V) :
    route w (msgs ++ [.publish msg]) = route w msgs ++ [.publish msg] := by
  simp [route, WorkerMsg.goesTo]

theorem table_route_subscribe (w : Worker) (msgs : List (WorkerMsg T V S)) (sub : SubscribeMsg T S)
    (topic : T) :
    table (route w (msgs ++ [.subscribe sub])) topic =
      if sub.topic = topic ∧ sub.worker = w then some sub.sender
      else table (route w msgs) topic := by
  unfold route
  rw [List.filter_append]
  rcases eq_or_ne sub.worker w with hw | hw
  · rw [List.filter_cons_of_pos (by simp [WorkerMsg.goesTo, hw]), List.filter_nil, table_append,
      supervised_subscribe]
    rcases eq_or_ne sub.topic topic with rfl | htopic
    · simp [hw]
    · simp [htopic, Function.update_of_ne htopic.symm]
  · rw [List.filter_cons_of_neg (by simp [WorkerMsg.goesTo, hw]), List.filter_nil, List.append_nil,
      if_neg (fun h => hw h.2)]

theorem notifications_route_subscribe (w : Worker) (msgs : List (WorkerMsg T V S))
    (sub : SubscribeMsg T S) :
    notifications (route w (msgs ++ [.subscribe sub])) = notifications (route w msgs) := by
  unfold route
  rw [List.filter_append, List.filter_cons]
  split
  · rw [List.filter_nil, notifications_append, supervised_subscribe, List.append_nil]
  · rw [List.filter_nil, List.append_nil]

theorem table_route_ne_none (w : Worker) (msgs : List (WorkerMsg T V S)) (topic : T) :
    table (route w msgs) topic ≠ none ↔
      ∃ sub, .subscribe sub ∈ msgs ∧ sub.topic = topic ∧ sub.worker = w := by
  induction msgs using List.reverseRecOn with
  | nil => simp
  | append_singleton msgs msg ih =>
    cases msg with
    | publish msg =>
      rw [route_publish, table_append, supervised_publish, ih]
      simp
    | subscribe sub =>
      rw [table_route_subscribe]
      simp only [List.mem_append, List.mem_singleton, WorkerMsg.subscribe.injEq]
      split
      · rename_i hsub
        exact ⟨fun _ => ⟨sub, Or.inr rfl, hsub⟩, fun _ => by simp⟩
      · rename_i hsub
        rw [ih]
        constructor
        · rintro ⟨sub', hmem, h⟩
          exact ⟨sub', Or.inl hmem, h⟩
        · rintro ⟨sub', hmem | rfl, h⟩
          · exact ⟨sub', hmem, h⟩
          · exact absurd h hsub

theorem table_eq_or (msgs : List (WorkerMsg T V S)) (topic : T) :
    ∃ w, table msgs topic = table (route w msgs) topic ∧
      (table msgs topic = none → ∀ w', table (route w' msgs) topic = none) := by
  induction msgs using List.reverseRecOn with
  | nil => exact ⟨.oddWorker, rfl, fun _ _ => rfl⟩
  | append_singleton msgs msg ih =>
    cases msg with
    | publish msg =>
      simp only [route_publish, table_append, supervised_publish]
      exact ih
    | subscribe sub =>
      simp only [table_route_subscribe, table_append, supervised_subscribe]
      rcases eq_or_ne sub.topic topic with rfl | htopic
      · exact ⟨sub.worker, by simp⟩
      · simpa [htopic, Function.update_of_ne htopic.symm] using ih

/-- What two workers notify between them. -/
def sharded (msgs : List (WorkerMsg T V S)) : List (S × NotifyMsg V) :=
  notifications (route .oddWorker msgs) ++ notifications (route .evenWorker msgs)

theorem publish_perm (msgs : List (WorkerMsg T V S)) (msg : PublishMsg T V) :
    ∃ extra, ((WorkerMsg.publish msg).supervised (table (route .oddWorker msgs))).2 ++
        ((WorkerMsg.publish msg).supervised (table (route .evenWorker msgs))).2 ~
        ((WorkerMsg.publish msg).supervised (table msgs)).2 ++ extra ∧
      (extra = [] ↔ ¬ ∀ w, table (route w msgs) msg.topic ≠ none) := by
  simp only [supervised_publish]
  obtain ⟨w, heq, hnone⟩ := table_eq_or msgs msg.topic
  rw [heq] at hnone ⊢
  cases w with
  | oddWorker =>
    refine ⟨_, List.Perm.refl _, ?_⟩
    cases heven : table (route .evenWorker msgs) msg.topic with
    | none => simpa using ⟨.evenWorker, heven⟩
    | some subscriber =>
      have hboth : ∀ w, table (route w msgs) msg.topic ≠ none := by
        rintro (_ | _)
        · intro hodd
          rw [hnone hodd .evenWorker] at heven
          cases heven
        · simp [heven]
      simpa using hboth
  | evenWorker =>
    refine ⟨_, List.perm_append_comm, ?_⟩
    cases hodd : table (route .oddWorker msgs) msg.topic with
    | none => simpa using ⟨.oddWorker, hodd⟩
    | some subscriber =>
      have hboth : ∀ w, table (route w msgs) msg.topic ≠ none := by
        rintro (_ | _)
        · simp [hodd]
        · intro heven
          rw [hnone heven .oddWorker] at hodd
          cases hodd
      simpa using hboth

theorem sharded_perm (msgs : List (WorkerMsg T V S)) :
    ∃ extra, sharded msgs ~ notifications msgs ++ extra ∧ (extra = [] ↔ ¬ Mixed msgs) := by
  induction msgs using List.reverseRecOn with
  | nil => exact ⟨[], List.Perm.refl _, by simp [Mixed]⟩
  | append_singleton msgs msg ih =>
    obtain ⟨extra, hperm, hextra⟩ := ih
    cases msg with
    | subscribe sub =>
      refine ⟨extra, ?_, by rw [hextra, mixed_append_subscribe]⟩
      unfold sharded
      rw [notifications_route_subscribe, notifications_route_subscribe, notifications_append,
        supervised_subscribe, List.append_nil]
      exact hperm
    | publish msg =>
      obtain ⟨more, hmore, hboth⟩ := publish_perm msgs msg
      refine ⟨extra ++ more, ?_, ?_⟩
      · unfold sharded at hperm ⊢
        rw [route_publish, route_publish, notifications_append, notifications_append,
          notifications_append]
        calc _ ~ (notifications (route .oddWorker msgs) ++
                notifications (route .evenWorker msgs)) ++
              (((WorkerMsg.publish msg).supervised (table (route .oddWorker msgs))).2 ++
                ((WorkerMsg.publish msg).supervised (table (route .evenWorker msgs))).2) := by
              simpa only [List.append_assoc] using
                (List.perm_append_comm_assoc _ _ _).append_left _
          _ ~ (notifications msgs ++ extra) ++
              (((WorkerMsg.publish msg).supervised (table msgs)).2 ++ more) := hperm.append hmore
          _ ~ _ := by
              simpa only [List.append_assoc] using
                (List.perm_append_comm_assoc _ _ _).append_left _
      · rw [List.append_eq_nil_iff, hextra, hboth, mixed_append_publish]
        simp only [table_route_ne_none]
        exact not_or.symm

/-! ## The broker with its workers -/

/-- What the workers did is what their messages make of an empty table. -/
def WorkersOk (s : State T V S) : Prop :=
  ∃ done : Worker → List (WorkerMsg T V S), (∀ w, done w ++ s.mailbox w = toldTo w s.broker.sent) ∧
    (∀ w, s.subscriptions w = table (done w)) ∧
    s.notified ~ notifications (done .oddWorker) ++ notifications (done .evenWorker)

theorem WorkersOk.worker {s : State T V S} (h : WorkersOk s) {w : Worker}
    {msg : WorkerMsg T V S} {rest : List (WorkerMsg T V S)} (hm : s.mailbox w = msg :: rest) :
    WorkersOk { s with
      mailbox := Function.update s.mailbox w rest
      subscriptions := Function.update s.subscriptions w (msg.supervised (s.subscriptions w)).1
      notified := s.notified ++ (msg.supervised (s.subscriptions w)).2 } := by
  obtain ⟨done, htold, htable, hperm⟩ := h
  refine ⟨Function.update done w (done w ++ [msg]), ?_, ?_, ?_⟩
  · intro w'
    rcases eq_or_ne w' w with rfl | hw
    · simp only [Function.update_self, ← htold, hm, List.append_assoc, List.cons_append,
        List.nil_append]
    · simp only [Function.update_of_ne hw, htold]
  · intro w'
    rcases eq_or_ne w' w with rfl | hw
    · simp only [Function.update_self, table_append, htable]
    · simp only [Function.update_of_ne hw, htable]
  · simp only [htable]
    refine (hperm.append_right _).trans ?_
    cases w with
    | oddWorker =>
      rw [Function.update_self, Function.update_of_ne (by simp), notifications_append,
        List.append_assoc, List.append_assoc]
      exact List.perm_append_comm.append_left _
    | evenWorker =>
      rw [Function.update_self, Function.update_of_ne (by simp), notifications_append,
        List.append_assoc]

omit [DecidableEq T] in
theorem toldTo_append (w : Worker) (tells tells' : List (Tell T V S)) :
    toldTo w (tells ++ tells') = toldTo w tells ++ toldTo w tells' := by
  simp [toldTo]

theorem workersOk {s : State T V S} (h : (system T V S).Reachable s) : WorkersOk s := by
  refine h.invariant WorkersOk ?_ ?_
  · rintro s rfl
    exact ⟨fun _ => [], fun _ => rfl, fun _ => rfl, List.Perm.refl _⟩
  · intro s a t hs hstep
    cases hstep with
    | arrive => exact hs
    | broker msg rest hm =>
      obtain ⟨done, htold, htable, hperm⟩ := hs
      refine ⟨done, fun w => ?_, htable, hperm⟩
      simp only [Actor.react, toldTo_append, ← htold w, List.append_assoc]
    | worker w msg rest hm => exact hs.worker hm

/-- Without a switch, what the broker has handled is passed on as it is. -/
def BrokerOk (s : State T V S) : Prop :=
  (∀ msg, .batch msg ∉ s.broker.arrived) → s.broker.behavior = .batchedOff ∧ s.broker.stashed = [] ∧
    ∃ handled, handled ++ s.broker.mailbox = s.broker.arrived ∧
      ∀ w, toldTo w s.broker.sent = route w (handled.filterMap BrokerMsg.toWorker)

omit [DecidableEq T] in
theorem toldTo_receive (w : Worker) (msg : BrokerMsg T V S) (hmsg : ∀ m, msg ≠ .batch m) :
    toldTo w (receive .batchedOff msg).out = route w ([msg].filterMap BrokerMsg.toWorker) := by
  cases msg with
  | subscribe msg =>
    simp [receive, onSubscribe, toldTo, route, BrokerMsg.toWorker, WorkerMsg.goesTo,
      List.filter_cons, apply_ite]
  | publish msg =>
    cases w <;> rfl
  | batch msg => exact absurd rfl (hmsg msg)

theorem brokerOk {s : State T V S} (h : (system T V S).Reachable s) : BrokerOk s := by
  refine h.invariant BrokerOk ?_ ?_
  · rintro s rfl -
    exact ⟨rfl, rfl, [], rfl, fun _ => rfl⟩
  · intro s a t hs hstep
    cases hstep with
    | arrive msg =>
      intro hbatch
      obtain ⟨hoff, hstash, handled, hall, htold⟩ := hs fun m hm =>
        hbatch m (List.mem_append_left _ hm)
      refine ⟨hoff, hstash, handled, ?_, htold⟩
      simp only [Actor.arrive, ← List.append_assoc, hall]
    | broker msg rest hm =>
      intro hbatch
      obtain ⟨hoff, hstash, handled, hall, htold⟩ := hs hbatch
      have hmsg : ∀ m, msg ≠ .batch m := by
        rintro m rfl
        apply hbatch m
        simp only [Actor.react, ← hall, hm]
        simp
      have hreact : (receive .batchedOff msg).behavior = .batchedOff ∧
          (receive .batchedOff msg).stash = false ∧
          (receive .batchedOff msg).unstashAll = false := by
        cases msg with
        | subscribe msg => exact ⟨rfl, rfl, rfl⟩
        | publish msg => exact ⟨rfl, rfl, rfl⟩
        | batch msg => exact absurd rfl (hmsg msg)
      obtain ⟨hbehavior, hnostash, hnounstash⟩ := hreact
      simp only [Actor.react, hoff, hbehavior, hnostash, hnounstash]
      refine ⟨trivial, hstash, handled ++ [msg], ?_, fun w => ?_⟩
      · rw [← hall, hm, List.append_assoc]
        rfl
      · rw [toldTo_append, htold, toldTo_receive w msg hmsg, List.filterMap_append]
        exact (List.filter_append ..).symm
    | worker => exact hs

/-- Without a switch of batching, once all messages are handled: the subscribers get what
two independent workers send them, one for each kind of keys. That contains what one worker
would send, and is the same exactly if no event finds a subscriber in both. -/
theorem sharded_notifications {s : State T V S} (h : (system T V S).Reachable s)
    (hbatch : ∀ msg, .batch msg ∉ s.broker.arrived) (hbroker : s.broker.mailbox = [])
    (hworkers : ∀ w, s.mailbox w = []) :
    s.notified ~ sharded (s.broker.arrived.filterMap BrokerMsg.toWorker) ∧
    notifications (s.broker.arrived.filterMap BrokerMsg.toWorker) <+~ s.notified ∧
    (s.notified ~ notifications (s.broker.arrived.filterMap BrokerMsg.toWorker) ↔
      ¬ Mixed (s.broker.arrived.filterMap BrokerMsg.toWorker)) := by
  obtain ⟨-, -, handled, hall, htold⟩ := brokerOk h hbatch
  obtain ⟨done, hdone, -, hnotified⟩ := workersOk h
  rw [hbroker, List.append_nil] at hall
  subst hall
  have hroute : ∀ w, done w = route w (s.broker.arrived.filterMap BrokerMsg.toWorker) := by
    intro w
    rw [← htold w, ← hdone w, hworkers w, List.append_nil]
  rw [hroute, hroute] at hnotified
  obtain ⟨extra, hperm, hextra⟩ := sharded_perm (s.broker.arrived.filterMap BrokerMsg.toWorker)
  have hboth := hnotified.trans hperm
  refine ⟨hnotified, ?_, ?_⟩
  · exact (List.sublist_append_left _ extra).subperm.trans hboth.symm.subperm
  · rw [← hextra]
    constructor
    · intro hsame
      have hlength := (hsame.symm.trans hboth).length_eq
      rw [List.length_append] at hlength
      exact List.eq_nil_of_length_eq_zero (by omega)
    · rintro rfl
      rwa [List.append_nil] at hboth

/-- A subscriber per worker: one worker would not notify the first. -/
theorem sharded_not_single : ∃ s : State Nat Nat Nat, (system Nat Nat Nat).Reachable s ∧
    (∀ msg, .batch msg ∉ s.broker.arrived) ∧ s.broker.mailbox = [] ∧ (∀ w, s.mailbox w = []) ∧
    ¬ s.notified ~ notifications (s.broker.arrived.filterMap BrokerMsg.toWorker) := by
  have h0 : (system Nat Nat Nat).Reachable .new := .start rfl
  have h1 := h0.step (.arrive (.subscribe ⟨2, 0, 1⟩))
  have h2 := h1.step (.arrive (.subscribe ⟨1, 0, 2⟩))
  have h3 := h2.step (.arrive (.publish ⟨0, 7⟩))
  have h4 := h3.step (.broker _ _ rfl)
  have h5 := h4.step (.broker _ _ rfl)
  have h6 := h5.step (.broker _ _ rfl)
  have h7 := h6.step (.worker .oddWorker _ _ rfl)
  have h8 := h7.step (.worker .oddWorker _ _ rfl)
  have h9 := h8.step (.worker .evenWorker _ _ rfl)
  have h10 := h9.step (.worker .evenWorker _ _ rfl)
  refine ⟨_, h10, ?_, rfl, ?_, fun hperm => ?_⟩
  · simp [Actor.arrive, Actor.react, State.new, Actor.new]
  · intro w
    cases w <;> rfl
  · exact absurd hperm.length_eq (show ¬ 2 = 1 by decide)

theorem sharded_notifications_odd : ∃ s : State Nat Nat Nat,
    s.notified = [(2, ⟨7⟩)] ∧
    s.notified ~ sharded [.subscribe ⟨1, 0, 1⟩, .subscribe ⟨3, 0, 2⟩, .publish ⟨0, 7⟩] := by
  have h0 : (system Nat Nat Nat).Reachable .new := .start rfl
  have h1 := h0.step (.arrive (.subscribe ⟨1, 0, 1⟩))
  have h2 := h1.step (.arrive (.subscribe ⟨3, 0, 2⟩))
  have h3 := h2.step (.arrive (.publish ⟨0, 7⟩))
  have h4 := h3.step (.broker _ _ rfl)
  have h5 := h4.step (.broker _ _ rfl)
  have h6 := h5.step (.broker _ _ rfl)
  have h7 := h6.step (.worker .oddWorker _ _ rfl)
  have h8 := h7.step (.worker .oddWorker _ _ rfl)
  have h9 := h8.step (.worker .oddWorker _ _ rfl)
  have h10 := h9.step (.worker .evenWorker _ _ rfl)
  refine ⟨_, rfl, (sharded_notifications h10 ?_ rfl ?_).1⟩
  · simp [Actor.arrive, Actor.react, State.new, Actor.new]
  · intro w
    cases w <;> rfl

end Nsds.PubSub
