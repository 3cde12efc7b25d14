import Mathlib.Tactic.Linarith
import Nsds.Akka.Sensors.Dispatch
import Nsds.Lib.MachineInt

/-!
# No temperature is lost

Whatever the mode of the dispatcher is, a temperature that it handled is in one
mailbox or was processed by one processor. The fields of a processor are the
number and the mean of the temperatures that it accepted.
-/

namespace Nsds.Sensors

open Transition

variable {S P : Type} [DecidableEq S] [DecidableEq P] {processors : Processors P}

/-! ## Where a temperature is -/

/-- How often the temperature number `k` is in the mailbox of `p` or was processed by `p`. -/
def State.held (s : State S P) (p : P) (k : Nat) : Nat :=
  (s.mailbox p).countP (fun e => e.1 = k) + (s.processed p).countP (fun e => e.1 = k)

/-- The temperatures that count in the average of `p`. -/
def State.accepted (s : State S P) (p : P) : List Int :=
  ((s.processed p).map fun e => e.2.temperature).filter fun t => 0 ≤ t

/-- The fields of a processor are right for the temperatures it accepted. -/
def Mean (sp : SensorProcessor) (accepted : List Int) : Prop :=
  sp.readings = accepted.length ∧ sp.currentAverage * sp.readings = ((accepted.sum : Int) : ℚ)

/-- Every message of `handled` is in one place, and every processor has the mean of what it
accepted. -/
structure State.Inv (processors : Processors P) (s : State S P) : Prop where
  dispatcher : s.dispatcher.Inv processors
  known : ∀ p, ∀ e ∈ s.mailbox p ++ s.processed p, s.handled[e.1]? = some e.2
  placed : ∀ k, k < s.handled.length →
    ∃ p ∈ processors.refs, s.held p k = 1 ∧ ∀ q, q ≠ p → s.held q k = 0
  mean : ∀ p, ∃ sp, s.children p = some sp ∧
    ((s.accepted p).length < 2 ^ 31 - 1 → Mean sp (s.accepted p))

/-! ## `gotData` -/

theorem toInt_of_lt (n : Nat) (h : n < 2 ^ 31) : toInt n = n := by
  unfold toInt
  exact MachineInt.wrap_of_int (by omega) (by omega)

omit [DecidableEq S] in
theorem handle_negative (sp : SensorProcessor) (msg : TemperatureMsg S)
    (h : ¬ 0 ≤ msg.temperature) : handle sp msg = some sp := by
  simp [handle, gotData, h, decider, supervise]

omit [DecidableEq S] in
theorem handle_accepted (sp : SensorProcessor) (msg : TemperatureMsg S) (accepted : List Int)
    (hsp : Mean sp accepted) (hlt : accepted.length + 1 < 2 ^ 31)
    (h : 0 ≤ msg.temperature) :
    ∃ sp', handle sp msg = some sp' ∧ Mean sp' (accepted ++ [msg.temperature]) := by
  have hnext : toInt (sp.readings + 1) = (accepted.length + 1 : Nat) := by
    rw [hsp.1]
    exact toInt_of_lt (accepted.length + 1) hlt
  refine ⟨_, by simp only [handle, gotData, if_pos h]; rfl, ?_, ?_⟩
  · simp only [hnext, List.length_append, List.length_singleton]
  · have hne : ((accepted.length : ℚ) + 1) ≠ 0 := by positivity
    have hsum := hsp.2
    simp only [hnext, List.sum_append, List.sum_singleton, Int.cast_natCast, Int.cast_add,
      Int.cast_one, Nat.cast_add, Nat.cast_one]
    rw [div_mul_cancel₀ _ hne, hsum]

/-! ## One step -/

omit [DecidableEq S] in
theorem deliver_map (tag : Nat) (p q : P) (msgs : List (TemperatureMsg S))
    (mailbox : P → List (Nat × TemperatureMsg S)) :
    deliver tag (msgs.map fun msg => (p, msg)) mailbox q =
      mailbox q ++ if q = p then msgs.map fun msg => (tag, msg) else [] := by
  unfold deliver
  induction msgs generalizing mailbox with
  | nil => simp
  | cons msg msgs ih =>
    rw [List.map_cons, List.foldl_cons, ih]
    split
    · rename_i hq; subst hq; simp
    · rename_i hq; simp [hq]

omit [DecidableEq P] [DecidableEq S] in
theorem countP_tag (tag k : Nat) (msgs : List (TemperatureMsg S)) :
    (msgs.map fun msg => (tag, msg)).countP (fun e => e.1 = k) =
      if tag = k then msgs.length else 0 := by
  rw [List.countP_map]
  split
  · rename_i h; simp [Function.comp_def, h]
  · rename_i h; simp [Function.comp_def, h]

/-- After `ev`, with its temperatures sent to `p`. -/
def State.dispatched (s : State S P) (ev : Event S P) (d : Dispatcher S P) (p : P) : State S P :=
  { s with
    dispatcher := d
    mailbox := deliver s.handled.length (ev.temperatures.map fun msg => (p, msg)) s.mailbox
    handled := s.handled ++ ev.temperatures }

def State.processing (s : State S P) (p : P) (sp : SensorProcessor) (k : Nat)
    (msg : TemperatureMsg S) (rest : List (Nat × TemperatureMsg S)) : State S P :=
  { s with
    children := Function.update s.children p (handle sp msg)
    mailbox := Function.update s.mailbox p rest
    processed := Function.update s.processed p (s.processed p ++ [(k, msg)]) }

section

variable {s : State S P} {ev : Event S P} {d : Dispatcher S P} {p : P} {sp : SensorProcessor}
  {k : Nat} {msg : TemperatureMsg S} {rest : List (Nat × TemperatureMsg S)}

omit [DecidableEq S] in
theorem dispatched_held (q : P) (n : Nat) :
    (s.dispatched ev d p).held q n =
      s.held q n + if q = p ∧ s.handled.length = n then ev.temperatures.length else 0 := by
  unfold State.held State.dispatched
  simp only [deliver_map, List.countP_append]
  split
  · rename_i hq; simp only [hq, true_and, countP_tag]; omega
  · rename_i hq; simp [hq]

omit [DecidableEq S] in
theorem processing_held (hm : s.mailbox p = (k, msg) :: rest) (q : P) (n : Nat) :
    (s.processing p sp k msg rest).held q n = s.held q n := by
  unfold State.held State.processing
  rcases eq_or_ne q p with rfl | hq
  · simp only [Function.update_self, hm, List.countP_append, List.countP_cons, List.countP_nil]
    omega
  · simp [hq]

omit [DecidableEq S] in
theorem processing_accepted :
    (s.processing p sp k msg rest).accepted p =
      s.accepted p ++ if 0 ≤ msg.temperature then [msg.temperature] else [] := by
  unfold State.accepted State.processing
  simp only [Function.update_self, List.map_append, List.filter_append, List.map_cons,
    List.map_nil, List.filter_cons, List.filter_nil, decide_eq_true_eq]

omit [DecidableEq S] in
theorem State.Inv.held_fresh (hs : s.Inv processors) (q : P) {n : Nat} (hn : s.handled.length ≤ n) :
    s.held q n = 0 := by
  by_contra h
  have hpos : 0 < (s.mailbox q ++ s.processed q).countP (fun e => e.1 = n) := by
    rw [List.countP_append]
    exact Nat.pos_of_ne_zero h
  obtain ⟨e, he, hen⟩ := List.countP_pos_iff.mp hpos
  have hget := hs.known q e he
  simp only [decide_eq_true_eq] at hen
  rw [hen, List.getElem?_eq_none hn] at hget
  cases hget

omit [DecidableEq S] in
theorem State.Inv.dispatched (hs : s.Inv processors) (hd : d.Inv processors)
    (hp : p ∈ processors.refs) : (s.dispatched ev d p).Inv processors := by
  constructor
  case dispatcher => exact hd
  case known =>
    intro q e he
    unfold State.dispatched at he ⊢
    simp only [deliver_map] at he ⊢
    have hold : e ∈ s.mailbox q ++ s.processed q →
        (s.handled ++ ev.temperatures)[e.1]? = some e.2 := by
      intro h
      have hget := hs.known q e h
      rw [List.getElem?_append_left (List.getElem?_eq_some_iff.mp hget).1]
      exact hget
    rw [List.append_assoc, List.mem_append, List.mem_append] at he
    rcases he with he | he | he
    · exact hold (List.mem_append_left _ he)
    -- The new message is the last of those handled.
    · split at he
      · obtain ⟨msg, hmsg, rfl⟩ := List.mem_map.mp he
        rw [List.getElem?_append_right le_rfl, Nat.sub_self]
        cases ev with
        | temperature m o =>
          simp only [Event.temperatures, List.mem_singleton] at hmsg ⊢
          simp [hmsg]
        | dispatchLogic l => simp [Event.temperatures] at hmsg
      · simp at he
    · exact hold (List.mem_append_right _ he)
  case placed =>
    intro n hn
    have hlen : ev.temperatures.length ≤ 1 := by cases ev <;> simp [Event.temperatures]
    unfold State.dispatched at hn
    rw [List.length_append] at hn
    rcases Nat.lt_or_ge n s.handled.length with hlt | hge
    · obtain ⟨q, hq, hone, hzero⟩ := hs.placed n hlt
      refine ⟨q, hq, ?_, fun r hr => ?_⟩
      · rw [dispatched_held, hone, if_neg (by omega)]
      · rw [dispatched_held, hzero r hr, if_neg (by omega)]
    · refine ⟨p, hp, ?_, fun r hr => ?_⟩
      · rw [dispatched_held, hs.held_fresh p hge, if_pos ⟨rfl, by omega⟩]
        omega
      · rw [dispatched_held, hs.held_fresh r hge, if_neg (by simp [hr])]
  case mean => exact hs.mean

omit [DecidableEq S] in
theorem processing_mean (hsp : (s.accepted p).length < 2 ^ 31 - 1 → Mean sp (s.accepted p)) :
    ∃ sp', handle sp msg = some sp' ∧
      (((s.processing p sp k msg rest).accepted p).length < 2 ^ 31 - 1 →
        Mean sp' ((s.processing p sp k msg rest).accepted p)) := by
  rw [processing_accepted]
  split
  · rename_i h
    rcases Nat.lt_or_ge (s.accepted p).length (2 ^ 31 - 1) with hlt | hge
    · obtain ⟨sp', hsp', hmean⟩ := handle_accepted sp msg _ (hsp hlt) (by omega) h
      exact ⟨sp', hsp', fun _ => hmean⟩
    · refine ⟨_, by simp only [handle, gotData, if_pos h]; rfl, fun hlt => absurd hlt ?_⟩
      rw [List.length_append, List.length_singleton]
      omega
  · rename_i h
    rw [List.append_nil]
    exact ⟨sp, handle_negative sp msg h, hsp⟩

omit [DecidableEq S] in
theorem State.Inv.processing (hs : s.Inv processors) (hp : s.children p = some sp)
    (hm : s.mailbox p = (k, msg) :: rest) : (s.processing p sp k msg rest).Inv processors := by
  constructor
  case dispatcher => exact hs.dispatcher
  case known =>
    intro q e he
    apply hs.known q e
    unfold State.processing at he
    rcases eq_or_ne q p with rfl | hq
    · simp only [Function.update_self, List.mem_append, List.mem_singleton] at he
      rw [hm]
      simp only [List.cons_append, List.mem_cons, List.mem_append]
      tauto
    · simpa [hq] using he
  case placed =>
    intro n hn
    simp only [processing_held hm]
    exact hs.placed n hn
  case mean =>
    intro q
    obtain ⟨sp', hsp', hmean⟩ := hs.mean q
    rcases eq_or_ne q p with rfl | hq
    · rw [hp] at hsp'
      cases hsp'
      obtain ⟨sp', hhandle, hmean'⟩ := processing_mean hmean
      exact ⟨sp', by simpa [State.processing] using hhandle, hmean'⟩
    · exact ⟨sp', by simpa [State.processing, hq] using hsp',
        by simpa [State.accepted, State.processing, hq] using hmean⟩

end

theorem dispatch_inv {s : State S P} (hs : s.Inv processors) {ev : Event S P}
    {d : Dispatcher S P} {sent : List (P × TemperatureMsg S)}
    (hd : s.dispatcher.receive processors ev = .ok (d, sent)) :
    ∃ p, sent = (ev.temperatures.map fun msg => (p, msg)) ∧
      (s.dispatched ev d p).Inv processors := by
  obtain ⟨d', sent', hok, hd', ⟨p, hp, hsent⟩, -⟩ := receive_spec s.dispatcher hs.dispatcher ev
  rw [hok] at hd
  cases hd
  exact ⟨p, hsent, hs.dispatched hd' hp⟩

theorem state_inv {s : State S P} (h : (system processors).Reachable s) : s.Inv processors := by
  refine h.invariant (State.Inv processors) ?_ ?_
  · rintro _ rfl
    refine ⟨new_inv processors, by simp [State.new], by simp [State.new], fun p => ?_⟩
    exact ⟨.new, rfl, fun _ => by simp [Mean, State.accepted, State.new, SensorProcessor.new]⟩
  · rintro s a t hs hstep
    cases hstep with
    | dispatch ev d sent hd =>
      obtain ⟨p, rfl, hinv⟩ := dispatch_inv hs hd
      exact hinv
    | process p sp k msg rest hp hm => exact hs.processing hp hm

/-- Every temperature that the dispatcher handled is in flight to one processor or
was processed by one processor, once, and the dispatcher never fails on the next message.
Every processor stays alive and has the number and the mean of the temperatures it
accepted. A negative temperature changes nothing. -/
theorem temperature_conservation {s : State S P} (h : (system processors).Reachable s) :
    (∀ k msg, s.handled[k]? = some msg →
      ∃ p ∈ processors.refs, ((k, msg) ∈ s.mailbox p ∨ (k, msg) ∈ s.processed p) ∧
        s.held p k = 1 ∧ ∀ q, q ≠ p → s.held q k = 0) ∧
    (∀ ev, ∃ d sent, s.dispatcher.receive processors ev = .ok (d, sent)) ∧
    (∀ p, ∃ sp, s.children p = some sp ∧
      ((s.accepted p).length < 2 ^ 31 - 1 →
        sp.readings = (s.accepted p).length ∧
        sp.currentAverage * sp.readings = (((s.accepted p).sum : Int) : ℚ))) ∧
    (∀ p k msg rest t, s.mailbox p = (k, msg) :: rest → msg.temperature < 0 →
      Step processors s (.process p) t → t.children = s.children) := by
  have hs := state_inv h
  refine ⟨?_, ?_, hs.mean, ?_⟩
  · intro k msg hk
    obtain ⟨p, hp, hone, hzero⟩ := hs.placed k (List.getElem?_eq_some_iff.mp hk).1
    refine ⟨p, hp, ?_, hone, hzero⟩
    have hpos : 0 < (s.mailbox p ++ s.processed p).countP (fun e => e.1 = k) := by
      rw [List.countP_append]
      exact Nat.lt_of_lt_of_eq Nat.zero_lt_one hone.symm
    obtain ⟨⟨k', msg'⟩, he, hek⟩ := List.countP_pos_iff.mp hpos
    simp only [decide_eq_true_eq] at hek
    subst hek
    have hget := hs.known p _ he
    rw [hk] at hget
    cases hget
    exact List.mem_append.mp he
  · intro ev
    obtain ⟨d, sent, hok, -⟩ := receive_spec s.dispatcher hs.dispatcher ev
    exact ⟨d, sent, hok⟩
  · intro p k msg rest t hm hneg hstep
    cases hstep with
    | process _ sp k' msg' rest' hp hm' =>
      rw [hm] at hm'
      cases hm'
      rw [handle_negative sp msg (by omega), ← hp, Function.update_eq_self]

theorem temperature_conservation_faulty : ∃ s : State Nat Bool, (system twoProcessors).Reachable s ∧
    s.handled = [⟨-50, 7⟩, ⟨20, 7⟩] ∧ s.mailbox false = [] ∧
    (∃ p ∈ [false, true], s.held p 0 = 1) ∧
    ∃ sp, s.children false = some sp ∧ sp.readings = 1 ∧ sp.currentAverage * sp.readings = 20 := by
  have hstart : (system twoProcessors).Reachable (State.new : State Nat Bool) := .start rfl
  have h1 := hstart.step (.dispatch (.temperature ⟨-50, 7⟩ backwards) _ _ rfl)
  have h2 := h1.step (.dispatch (.temperature ⟨20, 7⟩ backwards) _ _ rfl)
  have h3 := h2.step (.process false _ 0 ⟨-50, 7⟩ [(1, ⟨20, 7⟩)] rfl rfl)
  have h4 := h3.step (.process false _ 1 ⟨20, 7⟩ [] rfl rfl)
  obtain ⟨hplaced, -, hmean, -⟩ := temperature_conservation h4
  obtain ⟨p, hp, -, hone, -⟩ := hplaced 0 ⟨-50, 7⟩ rfl
  obtain ⟨sp, hsp, hreadings⟩ := hmean false
  obtain ⟨hcount, hsum⟩ := hreadings (by decide)
  exact ⟨_, h4, rfl, rfl, ⟨p, hp, hone⟩, sp, hsp, hcount, hsum⟩

end Nsds.Sensors
