import Nsds.Akka.PubSub.Main

/-!
# What `PubSub.java` holds back

The main thread tells the broker itself that batching is on, and only then tells the publisher the
next events. So the broker knows of the switch before it gets these events.
-/

namespace Nsds.PubSub

open Stash Transition
open scoped List

variable {T V : Type} [DecidableEq T] {requests : Client → List (BrokerMsg T V Unit)}
  {x : Program T V} {subscriptions : List (SubscribeMsg T Unit)}
  {before after : List (PublishMsg T V)}

/-- How far batching has come: the first switch is not yet told, is in the mailbox behind nothing
but what came before it, or was handled. At last the second one is told. -/
inductive Phase (before after : List (PublishMsg T V)) (x : Program T V) : Prop where
  | early (tells : List (MainTell T V)) : x.main = tells ++
      .broker { isOn := true } :: (after.map tellEvent ++ [.broker { isOn := false }]) →
      Phase before after x
  | queued (pre post arrived : List (BrokerMsg T V Unit)) :
      x.state.broker.mailbox = pre ++ .batch { isOn := true } :: post →
      (∀ w, InOrder (· = .batchedOff) (Tell.event w) BrokerMsg.event
        { x.state.broker with mailbox := pre, arrived }) →
      arrived.filterMap BrokerMsg.event <+: before → Phase before after x
  | batching : x.state.broker.behavior = .batchedOn → (∀ w, x.state.forwarded w <+: before) →
      Phase before after x
  | ended : .broker { isOn := false } ∉ x.main → Phase before after x

theorem Program.Inv.events_early (h : x.Inv (requested subscriptions (before ++ after)))
    {tells : List (MainTell T V)} (hmain : x.main = tells ++
      .broker { isOn := true } :: (after.map tellEvent ++ [.broker { isOn := false }])) :
    x.state.events <+: before := by
  have hrequests := h.requests .publisher
  have hlast : (after.map tellEvent ++ [MainTell.broker { isOn := false }]).filterMap
      (MainTell.to .publisher) = after.map .publish := by
    rw [List.filterMap_append, to_tellEvent]
    simp [MainTell.to]
  have hafter : ((after.map .publish).filter fun msg : ClientMsg T V => msg.notice.isNone).filterMap
      Client.publisher.due = after.map .publish := by
    simp [List.filter_map, List.filterMap_map, ClientMsg.notice, Client.due, Function.comp_def]
  unfold Program.requests Program.pending at hrequests
  rw [hmain, List.filterMap_append, List.filterMap_cons_none (by rfl), hlast, ← List.append_assoc,
    List.filter_append, List.filterMap_append, hafter, requested, List.map_append,
    ← List.append_assoc] at hrequests
  have hbefore := congrArg (List.filterMap BrokerMsg.event) (List.append_cancel_right hrequests)
  rw [List.filterMap_append, ← events_eq, List.filterMap_map] at hbefore
  exact ⟨_, hbefore.trans List.filterMap_some⟩

theorem Program.Inv.not_mem_mailbox (h : x.Inv requests)
    (hoff : .broker { isOn := false } ∈ x.main) :
    .batch { isOn := false } ∉ x.state.broker.mailbox := by
  intro hmem
  obtain ⟨switches, hall, -⟩ := (switchesOk h.state).handled
  have hcount := congrArg (List.count ⟨false⟩) h.switches
  unfold Program.switches at hcount
  rw [← hall, List.count_append, List.count_append] at hcount
  have hmain : 0 < (x.main.filterMap MainTell.switch).count ⟨false⟩ :=
    List.count_pos_iff.mpr (List.mem_filterMap.mpr ⟨_, hoff, rfl⟩)
  have hmailbox : 0 < (x.state.broker.mailbox.filterMap BrokerMsg.switch).count ⟨false⟩ :=
    List.count_pos_iff.mpr (List.mem_filterMap.mpr ⟨_, hmem, rfl⟩)
  have hone : List.count (⟨false⟩ : BatchMsg) [{ isOn := true }, { isOn := false }] = 1 := rfl
  omega

omit [DecidableEq T] in
theorem Phase.tell (hphase : Phase before after x) {y : Program T V}
    (told : Option (BrokerMsg T V Unit)) (hstate : y.state = told.elim x.state x.state.tell)
    (hearly : ∀ tells, x.main = tells ++
      .broker { isOn := true } :: (after.map tellEvent ++ [.broker { isOn := false }]) →
      Phase before after y) (hmain : ∀ t ∈ y.main, t ∈ x.main) : Phase before after y := by
  cases hphase with
  | early tells heq => exact hearly tells heq
  | queued pre post arrived hmailbox horder hevents =>
    cases told with
    | none => exact .queued pre post arrived (hstate ▸ hmailbox) (hstate ▸ horder) hevents
    | some msg =>
      refine .queued pre (post ++ [msg]) arrived ?_ (fun w => ?_) hevents
      · rw [hstate]
        simp [State.tell, Actor.arrive, hmailbox]
      · rw [hstate]
        exact horder w
  | batching hbehavior hforwarded =>
    refine .batching ?_ fun w => ?_
    · rw [hstate]
      cases told <;> exact hbehavior
    · rw [hstate]
      cases told <;> exact hforwarded w
  | ended hoff => exact .ended fun hmem => hoff (hmain _ hmem)

omit [DecidableEq T] in
theorem Phase.tellClient (hphase : Phase before after x) {c : Client} {msg : ClientMsg T V}
    {rest : List (MainTell T V)} (hmain : x.main = .client c msg :: rest)
    {mailbox : Client → List (ClientMsg T V)} :
    Phase before after { x with main := rest, mailbox } := by
  refine hphase.tell none rfl (fun tells heq => ?_) fun t ht => ?_
  · rw [hmain] at heq
    cases tells with
    | nil => simp at heq
    | cons t tells => exact .early tells (List.cons.inj heq).2
  · rw [hmain]
    exact List.mem_cons_of_mem _ ht

theorem Phase.tellBroker (h : x.Inv (requested subscriptions (before ++ after)))
    (hphase : Phase before after x) {msg : BatchMsg} {rest : List (MainTell T V)}
    (hmain : x.main = .broker msg :: rest) :
    Phase before after { x with main := rest, state := x.state.tell (.batch msg) } := by
  refine hphase.tell (some (.batch msg)) rfl (fun tells heq => ?_) fun t ht => ?_
  · have hevents := h.events_early heq
    rw [hmain] at heq
    cases tells with
    | nil =>
      -- the first switch goes to the mailbox
      obtain ⟨heq, -⟩ := List.cons.inj heq
      cases heq
      exact .queued x.state.broker.mailbox [] x.state.broker.arrived rfl
        (fun w => broker_inOrder h.state w) hevents
    | cons t tells => exact .early tells (List.cons.inj heq).2
  · rw [hmain]
    exact List.mem_cons_of_mem _ ht

omit [DecidableEq T] in
theorem receive_batchedOn {msg : BrokerMsg T V Unit} (hmsg : msg ≠ .batch { isOn := false }) :
    (receive .batchedOn msg).behavior = .batchedOn ∧
      ∀ w, (receive .batchedOn msg).out.filterMap (Tell.event w) = [] := by
  cases msg with
  | subscribe sub => simp [receive, onSubscribe, Tell.event]
  | publish msg => simp [receive, onPubBatch]
  | batch msg =>
    obtain ⟨_ | _⟩ := msg
    · exact absurd rfl hmsg
    · simp [receive, onBatching]

theorem Phase.broker (h : x.Inv (requested subscriptions (before ++ after)))
    (hphase : Phase before after x) {state : State T V Unit}
    (hstep : PubSub.Step x.state .broker state) : Phase before after { x with state } := by
  cases hstep with
  | broker msg rest hm =>
  cases hphase with
  | early tells heq => exact .early tells heq
  | queued pre post arrived hmailbox horder hevents =>
    rw [hm] at hmailbox
    cases pre with
    | nil =>
      -- the first switch is handled
      obtain ⟨rfl, rfl⟩ := List.cons.inj hmailbox
      refine .batching ?_ fun w => ?_
      · simp [Actor.react, receive, onBatching]
      · refine .trans ?_ hevents
        simpa [State.forwarded, Actor.react, receive, onBatching] using (horder w).sent_le
    | cons m pre =>
      obtain ⟨rfl, rfl⟩ := List.cons.inj hmailbox
      refine .queued _ post arrived ?_ (fun w => (horder w).react (receive_lawful w) rfl) hevents
      simp only [Actor.react]
      split <;> simp
  | batching hbehavior hforwarded =>
    by_cases hoff : .broker { isOn := false } ∈ x.main
    · have hmsg : msg ≠ .batch { isOn := false } := by
        rintro rfl
        exact h.not_mem_mailbox hoff (by simp [hm])
      refine .batching ?_ fun w => ?_
      · simp only [Actor.react, hbehavior]
        exact (receive_batchedOn hmsg).1
      · unfold State.forwarded at hforwarded ⊢
        simp only [Actor.react, hbehavior, List.filterMap_append, (receive_batchedOn hmsg).2,
          List.append_nil]
        exact hforwarded w
    · exact .ended hoff
  | ended hoff => exact .ended hoff

theorem Phase.worker (hphase : Phase before after x) {state : State T V Unit}
    (hstep : PubSub.Step x.state .worker state) : Phase before after (x.worked state) := by
  cases hstep with
  | worker w msg rest hm =>
  cases hphase with
  | early tells heq => exact .early tells heq
  | queued pre post arrived hmailbox horder hevents =>
    exact .queued pre post arrived hmailbox horder hevents
  | batching hbehavior hforwarded => exact .batching hbehavior hforwarded
  | ended hoff => exact .ended hoff

theorem Phase.step (h : x.Inv (requested subscriptions (before ++ after)))
    (hphase : Phase before after x) {y : Program T V} {turn : Turn}
    (hstep : Program.Step x turn y) : Phase before after y := by
  cases hstep with
  | tellClient hmain => exact hphase.tellClient hmain
  | tellBroker hmain => exact hphase.tellBroker h hmain
  | client => exact hphase.tell _ rfl (fun tells heq => .early tells heq) fun _ => id
  | restart => exact hphase.tell none rfl (fun tells heq => .early tells heq) fun _ => id
  | broker hstep => exact hphase.broker h hstep
  | worker hstep => exact hphase.worker hstep

theorem phase (h : (program subscriptions before after).Reachable x) : Phase before after x := by
  have hboth := h.invariant
    (fun x => x.Inv (requested subscriptions (before ++ after)) ∧ Phase before after x) ?_ ?_
  · exact hboth.2
  · intro x hx
    refine ⟨Program.Inv.start hx, ?_⟩
    cases hx
    refine .early (.client .subscriber .config :: .client .publisher .config ::
      (subscriptions.map tellSubscription ++ before.map tellEvent)) ?_
    simp [main]
  · rintro x turn y ⟨hinv, hphase⟩ hstep
    exact ⟨hinv.step hstep, hphase.step hinv hstep⟩

omit [DecidableEq T] in
theorem toldTo_publish {w : Worker} {tells : List (Tell T V Unit)} {msg : PublishMsg T V}
    (h : .publish msg ∈ toldTo w tells) : msg ∈ tells.filterMap (Tell.event w) := by
  rw [← toldTo_event]
  exact List.mem_filterMap.mpr ⟨_, h, rfl⟩

theorem handleAll_value {subscriptions : Subscriptions T Unit} {msgs : List (WorkerMsg T V Unit)}
    {n : Unit × NotifyMsg V} (h : n ∈ (handleAll subscriptions msgs).2) :
    ∃ msg, .publish msg ∈ msgs ∧ msg.value = n.2.value := by
  induction msgs generalizing subscriptions with
  | nil => simp [handleAll] at h
  | cons msg msgs ih =>
    rw [handleAll] at h
    rcases List.mem_append.mp h with h | h
    · cases msg with
      | subscribe sub => simp [supervised_subscribe] at h
      | publish msg =>
        refine ⟨msg, List.mem_cons_self, ?_⟩
        rw [supervised_publish] at h
        cases hsub : subscriptions msg.topic <;> simp_all
    · obtain ⟨msg', hmem, hvalue⟩ := ih h
      exact ⟨msg', List.mem_cons_of_mem _ hmem, hvalue⟩

/-- Until the main thread tells the broker that batching is off, no event that was published while
it was on is forwarded to a worker, and none is printed. -/
theorem held_back (h : (program subscriptions before after).Reachable x)
    (hoff : .broker { isOn := false } ∈ x.main) :
    (∀ w, x.state.forwarded w <+: before) ∧
      ∀ value ∈ x.printed, ∃ msg ∈ before, msg.value = value := by
  have hinv := Program.Inv.reachable h
  have hforwarded (w : Worker) : x.state.forwarded w <+: before := by
    cases phase h with
    | early tells heq =>
      exact (broker_inOrder hinv.state w).sent_le.trans (hinv.events_early heq)
    | queued pre post arrived _ horder hevents => exact (horder w).sent_le.trans hevents
    | batching _ hforwarded => exact hforwarded w
    | ended hnot => exact absurd hoff hnot
  refine ⟨hforwarded, fun value hvalue => ?_⟩
  obtain ⟨done, htold, -, hnotified⟩ := workersOk hinv.state
  have hmem : value ∈ x.state.notified.map fun n => n.2.value := by
    rw [← hinv.printed]
    exact List.mem_append_left _ hvalue
  obtain ⟨n, hn, rfl⟩ := List.mem_map.mp hmem
  have hdone : ∃ w, n ∈ notifications (done w) := by
    rcases List.mem_append.mp (hnotified.mem_iff.mp hn) with hodd | heven
    · exact ⟨_, hodd⟩
    · exact ⟨_, heven⟩
  obtain ⟨w, hw⟩ := hdone
  obtain ⟨msg, hmsg, hvalue⟩ := handleAll_value hw
  refine ⟨msg, (hforwarded w).subset (toldTo_publish (w := w) ?_), hvalue⟩
  rw [← htold w]
  exact List.mem_append_left _ hmsg

theorem held_back_two : ∃ x : Program Nat Nat, x.state.broker.stashed = [.publish ⟨0, 8⟩] ∧
    x.state.forwarded .oddWorker = [⟨0, 7⟩] ∧ x.state.forwarded .oddWorker <+: [⟨0, 7⟩] := by
  have h0 : (program [] [⟨0, 7⟩] [⟨0, 8⟩]).Reachable _ := .start rfl
  have h1 := h0.step (.tellClient rfl)
  have h2 := h1.step (.tellClient rfl)
  have h3 := h2.step (.tellClient rfl)
  have h4 := h3.step (.client (c := .publisher) rfl rfl)
  have h5 := h4.step (.client (c := .publisher) rfl rfl)
  have h6 := h5.step (.tellBroker rfl)
  have h7 := h6.step (.tellClient rfl)
  have h8 := h7.step (.client (c := .publisher) rfl rfl)
  have h9 := h8.step (.broker (.broker _ _ rfl))
  have h10 := h9.step (.broker (.broker _ _ rfl))
  have h11 := h10.step (.broker (.broker _ _ rfl))
  exact ⟨_, rfl, rfl, (held_back h11 (List.mem_singleton.mpr rfl)).1 .oddWorker⟩

end Nsds.PubSub
