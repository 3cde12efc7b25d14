import Nsds.Akka.Sensors.Dispatch
import Nsds.Lib.Cyclic

/-!
# Round robin

The temperatures that come in round-robin mode go around the processors, as if the mode had
never been another one in between.
-/

namespace Nsds.Sensors

open Cyclic

variable {S P : Type} [DecidableEq S] [DecidableEq P] {processors : Processors P}

/-- A temperature that was handled: the mode then, and what was forwarded. -/
structure Handled (S P : Type) where
  behavior : Behavior
  msg : TemperatureMsg S
  forwards : List (P × TemperatureMsg S)

/-- The dispatcher, and all temperatures that it has handled. -/
structure Trace (S P : Type) where
  dispatcher : Dispatcher S P
  handled : List (Handled S P)

def Trace.receive (processors : Processors P) (trace : Trace S P) (ev : Event S P) :
    Except Exn (Trace S P) :=
  match trace.dispatcher.receive processors ev with
  | .error e => .error e
  | .ok (d, sent) => .ok {
    dispatcher := d
    handled := trace.handled ++ ev.temperatures.map fun msg =>
      { behavior := trace.dispatcher.behavior, msg := msg, forwards := sent } }

/-- A run from the start, or what it throws. -/
def traceOf (processors : Processors P) (evs : List (Event S P)) : Except Exn (Trace S P) :=
  evs.foldlM (Trace.receive processors) { dispatcher := .new, handled := [] }

/-- The temperatures handled in round-robin mode. -/
def Trace.inRoundRobin (trace : Trace S P) : List (Handled S P) :=
  trace.handled.filter fun h => h.behavior = .roundRobin

/-! ## Each mode keeps the other's fields -/

theorem register_index {order : HashOrder P} {d d' : Dispatcher S P} {sender : S}
    (h : d.register processors order sender = .ok d') : d'.index = d.index := by
  unfold Dispatcher.register at h
  split at h
  · cases h
    rfl
  · split at h
    · cases h
    · cases h
      rfl

theorem dispatchDataLoadBalancer_index {order : HashOrder P} {d d' : Dispatcher S P}
    {msg : TemperatureMsg S} {sent : List (P × TemperatureMsg S)}
    (h : dispatchDataLoadBalancer processors order d msg = .ok (d', sent)) :
    d'.index = d.index := by
  unfold dispatchDataLoadBalancer at h
  split at h
  · cases h
  · rename_i hreg
    split at h
    · cases h
    · cases h
      exact register_index hreg

omit [DecidableEq S] [DecidableEq P] in
theorem dispatchDataRoundRobin_loadBalanceMap {d d' : Dispatcher S P} {msg : TemperatureMsg S}
    {sent : List (P × TemperatureMsg S)}
    (h : dispatchDataRoundRobin processors d msg = .ok (d', sent)) :
    d'.loadBalanceMap = d.loadBalanceMap := by
  unfold dispatchDataRoundRobin at h
  split at h
  · cases h
  · cases h
    rfl

omit [DecidableEq S] [DecidableEq P] in
theorem onDispatchLogicMsg_index (d : Dispatcher S P) (logic : Int) :
    (onDispatchLogicMsg d logic).index = d.index := by
  unfold onDispatchLogicMsg
  split <;> rfl

omit [DecidableEq S] [DecidableEq P] in
theorem onDispatchLogicMsg_loadBalanceMap (d : Dispatcher S P) (logic : Int) :
    (onDispatchLogicMsg d logic).loadBalanceMap = d.loadBalanceMap := by
  unfold onDispatchLogicMsg
  split <;> rfl

/-! ## The turns -/

/-- Where the next round-robin temperature goes is known from how many there were. -/
structure Trace.Inv (processors : Processors P) (trace : Trace S P) : Prop where
  dispatcher : trace.dispatcher.Inv processors
  index : trace.dispatcher.index = trace.inRoundRobin.length % processors.count
  visits : Visits (fun p h => h.forwards = [(p, h.msg)]) processors.refs trace.inRoundRobin

theorem Trace.receive_temperature {trace : Trace S P} {msg : TemperatureMsg S}
    {order : HashOrder P} {d : Dispatcher S P} {sent : List (P × TemperatureMsg S)}
    (h : trace.dispatcher.receive processors (.temperature msg order) = .ok (d, sent)) :
    trace.receive processors (.temperature msg order) =
      .ok ⟨d, trace.handled ++ [⟨trace.dispatcher.behavior, msg, sent⟩]⟩ := by
  rw [Trace.receive, h]
  rfl

omit [DecidableEq S] [DecidableEq P] in
theorem Trace.inRoundRobin_append (d : Dispatcher S P) (handled : List (Handled S P))
    (h : Handled S P) :
    (⟨d, handled ++ [h]⟩ : Trace S P).inRoundRobin =
      handled.filter (fun h => h.behavior = .roundRobin) ++
        if h.behavior = .roundRobin then [h] else [] := by
  rw [Trace.inRoundRobin, List.filter_append]
  split <;> simp [*]

theorem Trace.Inv.temperature {trace : Trace S P} (h : trace.Inv processors)
    (msg : TemperatureMsg S) (order : HashOrder P) :
    ∃ d p, trace.dispatcher.receive processors (.temperature msg order) = .ok (d, [(p, msg)]) ∧
      (⟨d, trace.handled ++ [⟨trace.dispatcher.behavior, msg, [(p, msg)]⟩]⟩ :
        Trace S P).Inv processors := by
  obtain ⟨hd, hindex, hvisits⟩ := h
  cases hmode : trace.dispatcher.behavior with
  | loadBalancer =>
    obtain ⟨d, p, hok, -, hd', -⟩ := dispatchDataLoadBalancer_spec order trace.dispatcher hd msg
    have hsame : (⟨d, trace.handled ++ [⟨.loadBalancer, msg, [(p, msg)]⟩]⟩ :
        Trace S P).inRoundRobin = trace.inRoundRobin := by
      rw [Trace.inRoundRobin_append, if_neg (by simp), List.append_nil, Trace.inRoundRobin]
    refine ⟨d, p, by simp only [Dispatcher.receive, hmode, hok], hd', ?_, ?_⟩
    · rw [hsame, ← hindex]
      exact dispatchDataLoadBalancer_index hok
    · rwa [hsame]
  | roundRobin =>
    obtain ⟨p, hp⟩ : ∃ p, processors.refs[trace.dispatcher.index]? = some p :=
      ⟨_, List.getElem?_eq_getElem hd.index⟩
    have hok : trace.dispatcher.receive processors (.temperature msg order) =
        .ok (⟨.roundRobin, (trace.dispatcher.index + 1) % processors.count,
          trace.dispatcher.loadBalanceMap⟩, [(p, msg)]) := by
      simp only [Dispatcher.receive, hmode, dispatchDataRoundRobin, hp]
    refine ⟨_, p, hok, receive_inv hd hok, ?_, ?_⟩
    · rw [Trace.inRoundRobin_append, if_pos rfl, List.length_append, List.length_singleton,
        hindex, Nat.mod_add_mod, Trace.inRoundRobin]
    · rw [Trace.inRoundRobin_append, if_pos rfl]
      exact hvisits.append_singleton (hindex ▸ hp) rfl

theorem Trace.Inv.receive {trace : Trace S P} (h : trace.Inv processors) (ev : Event S P) :
    ∃ trace', trace.receive processors ev = .ok trace' ∧ trace'.Inv processors ∧
      trace'.handled.map Handled.msg = trace.handled.map Handled.msg ++ ev.temperatures := by
  cases ev with
  | dispatchLogic logic =>
    obtain ⟨hd, hindex, hvisits⟩ := h
    have hok : trace.dispatcher.receive processors (.dispatchLogic logic : Event S P) =
        .ok (onDispatchLogicMsg trace.dispatcher logic, []) := rfl
    have hreceive : trace.receive processors (.dispatchLogic logic) =
        .ok ⟨onDispatchLogicMsg trace.dispatcher logic, trace.handled⟩ := by
      rw [Trace.receive, hok]
      simp [Event.temperatures]
    refine ⟨_, hreceive, ⟨receive_inv hd hok, ?_, hvisits⟩, ?_⟩
    · exact (onDispatchLogicMsg_index trace.dispatcher logic).trans hindex
    · simp [Event.temperatures]
  | temperature msg order =>
    obtain ⟨d, p, hok, hinv⟩ := h.temperature msg order
    exact ⟨_, Trace.receive_temperature hok, hinv, by simp [Event.temperatures]⟩

theorem traceOf_inv (processors : Processors P) (evs : List (Event S P)) :
    ∃ trace, traceOf processors evs = .ok trace ∧ trace.Inv processors ∧
      trace.handled.map Handled.msg = evs.flatMap Event.temperatures := by
  induction evs using List.reverseRecOn with
  | nil => exact ⟨_, rfl, ⟨new_inv processors, (Nat.zero_mod _).symm, visits_nil _ _⟩, rfl⟩
  | append_singleton evs ev ih =>
    obtain ⟨trace, htrace, hinv, hmsgs⟩ := ih
    obtain ⟨trace', hreceive, hinv', hmsgs'⟩ := hinv.receive ev
    refine ⟨trace', ?_, hinv', ?_⟩
    · rw [traceOf, List.foldlM_append, ← traceOf, htrace]
      change (trace.receive processors ev >>= pure) = _
      rw [hreceive]
      rfl
    · rw [hmsgs', hmsgs, List.flatMap_append, List.flatMap_singleton]

/-- No message makes a handler throw. Of the temperatures handled in round-robin mode the
`j`-th one goes to processor number `j`, modulo how many there are, so that a full turn gives
every processor one of them, and each mode leaves the other's fields alone. -/
theorem round_robin_fair (processors : Processors P) (evs : List (Event S P)) :
    ∃ trace, traceOf processors evs = .ok trace ∧
      trace.dispatcher.index < processors.count ∧
      trace.handled.map Handled.msg = evs.flatMap Event.temperatures ∧
      (∀ j h, trace.inRoundRobin[j]? = some h →
        ∃ p, processors.refs[j % processors.count]? = some p ∧ h.forwards = [(p, h.msg)]) ∧
      (∀ j, j + processors.count ≤ trace.inRoundRobin.length →
        (((trace.inRoundRobin.drop j).take processors.count).flatMap
          fun h => h.forwards.map Prod.fst).Perm processors.refs) ∧
      ∀ ev d sent, trace.dispatcher.receive processors ev = .ok (d, sent) →
        (trace.dispatcher.behavior = .loadBalancer → d.index = trace.dispatcher.index) ∧
        (trace.dispatcher.behavior = .roundRobin →
          d.loadBalanceMap = trace.dispatcher.loadBalanceMap) := by
  obtain ⟨trace, htrace, hinv, hmsgs⟩ := traceOf_inv processors evs
  refine ⟨trace, htrace, hinv.dispatcher.index, hmsgs, hinv.visits, ?_, ?_⟩
  · intro j hj
    exact hinv.visits.perm (fun p h hh => by rw [hh]; rfl) hj
  · intro ev d sent hok
    cases ev with
    | dispatchLogic logic =>
      cases hok
      exact ⟨fun _ => onDispatchLogicMsg_index .., fun _ => onDispatchLogicMsg_loadBalanceMap ..⟩
    | temperature msg order =>
      refine ⟨fun hmode => ?_, fun hmode => ?_⟩
      · simp only [Dispatcher.receive, hmode] at hok
        exact dispatchDataLoadBalancer_index hok
      · simp only [Dispatcher.receive, hmode] at hok
        exact dispatchDataRoundRobin_loadBalanceMap hok

end Nsds.Sensors
