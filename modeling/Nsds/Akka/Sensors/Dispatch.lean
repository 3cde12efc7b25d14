import Nsds.Akka.Sensors.Code
import Nsds.Lib.Balance

/-!
# Load balancing

The map of sensors to processors is a greedy assignment: a new sensor goes to a
processor with the fewest sensors, and no sensor ever moves.
-/

namespace Nsds.Sensors

open Transition Balance

variable {S P : Type} {processors : Processors P}

theorem count_pos (processors : Processors P) : 0 < processors.count :=
  List.length_pos_of_ne_nil processors.nonempty

/-! ## `groupingBy`, `min` -/

theorem streamMin_foldl (e : P × Nat) (es : List (P × Nat)) :
    let m := es.foldl (fun a b => if a.2 ≤ b.2 then a else b) e
    m ∈ e :: es ∧ m.2 ≤ e.2 ∧ ∀ x ∈ es, m.2 ≤ x.2 := by
  induction es generalizing e with
  | nil => simp
  | cons b es ih =>
    simp only [List.foldl_cons]
    obtain ⟨hmem, hle, hall⟩ := ih (if e.2 ≤ b.2 then e else b)
    have hstep : (if e.2 ≤ b.2 then e else b).2 ≤ e.2 ∧ (if e.2 ≤ b.2 then e else b).2 ≤ b.2 := by
      split <;> constructor <;> omega
    refine ⟨?_, hle.trans hstep.1, ?_⟩
    · rcases List.mem_cons.mp hmem with h | h
      · rw [h]; split <;> simp
      · exact List.mem_cons_of_mem _ (List.mem_cons_of_mem _ h)
    · intro x hx
      rcases List.mem_cons.mp hx with rfl | hx
      · exact hle.trans hstep.2
      · exact hall x hx

theorem streamMin_spec (es : List (P × Nat)) :
    match streamMin es with
    | none => es = []
    | some e => e ∈ es ∧ ∀ x ∈ es, e.2 ≤ x.2 := by
  cases es with
  | nil => rfl
  | cons e es =>
    obtain ⟨hmem, hle, hall⟩ := streamMin_foldl e es
    refine ⟨hmem, fun x hx => ?_⟩
    rcases List.mem_cons.mp hx with rfl | hx
    · exact hle
    · exact hall x hx

variable [DecidableEq P]

theorem groupingByCounting_from (values : List P) (r : AList fun _ : P => Nat) (p : P) :
    (values.foldl (fun result p => result.insert p ((result.lookup p).getD 0 + 1)) r).lookup p =
      if p ∈ values then some ((r.lookup p).getD 0 + values.count p) else r.lookup p := by
  induction values generalizing r with
  | nil => simp
  | cons v values ih =>
    rw [List.foldl_cons, ih]
    by_cases hv : p = v
    · subst hv
      by_cases hp : p ∈ values
      · simp [hp]; omega
      · simp [hp, List.count_eq_zero_of_not_mem]
    · simp [hv, AList.lookup_insert_ne, Ne.symm hv]

theorem putIfMissing_foldl (ps : List P) (r : AList fun _ : P => Nat) (p : P) :
    (ps.foldl putIfMissing r).lookup p =
      if p ∈ ps ∧ p ∉ r then some 0 else r.lookup p := by
  induction ps generalizing r with
  | nil => simp
  | cons v ps ih =>
    rw [List.foldl_cons, ih, putIfMissing]
    by_cases hv : v ∈ r
    · by_cases hp : p = v
      · subst hp; simp [hv]
      · simp [hv, hp]
    · by_cases hp : p = v
      · subst hp; simp [hv]
      · simp [hv, hp, AList.lookup_insert_ne]

theorem mem_loads (d : Dispatcher S P) (hsub : ∀ p ∈ d.values, p ∈ processors.refs) (p : P)
    (n : Nat) : (p, n) ∈ d.loads processors ↔ p ∈ processors.refs ∧ n = d.values.count p := by
  have hlookup : (processors.refs.foldl putIfMissing (groupingByCounting d.values)).lookup p =
      if p ∈ processors.refs then some (d.values.count p) else none := by
    have hg : (groupingByCounting d.values).lookup p =
        if p ∈ d.values then some (d.values.count p) else none := by
      rw [groupingByCounting, groupingByCounting_from]
      simp
    have hkey : p ∈ groupingByCounting d.values ↔ p ∈ d.values := by
      rw [← AList.lookup_isSome, hg]
      split <;> simp [*]
    rw [putIfMissing_foldl, hg]
    by_cases hv : p ∈ d.values
    · simp [hkey, hv, hsub p hv]
    · simp [hkey, hv, List.count_eq_zero_of_not_mem hv]
  have hentry : (p, n) ∈ d.loads processors ↔
      (processors.refs.foldl putIfMissing (groupingByCounting d.values)).lookup p = some n := by
    rw [← Option.mem_def, AList.mem_lookup_iff, Dispatcher.loads]
    simp only [List.mem_map, Prod.mk.injEq]
    constructor
    · rintro ⟨⟨p', n'⟩, he, rfl, rfl⟩; exact he
    · intro h; exact ⟨⟨p, n⟩, h, rfl, rfl⟩
  rw [hentry, hlookup]
  split
  · simp only [Option.some.injEq, true_and, *]; exact eq_comm
  · simp [*]

theorem least_loaded (order : HashOrder P) (d : Dispatcher S P)
    (hsub : ∀ p ∈ d.values, p ∈ processors.refs) :
    ∃ e, streamMin (order.arrange (d.loads processors)) = some e ∧
      Least processors.refs d.values e.1 := by
  have hmem : ∀ e, e ∈ order.arrange (d.loads processors) ↔
      e.1 ∈ processors.refs ∧ e.2 = d.values.count e.1 := by
    intro e
    rw [(order.perm _).mem_iff]
    exact mem_loads d hsub e.1 e.2
  have hspec := streamMin_spec (order.arrange (d.loads processors))
  split at hspec
  · rename_i hnone
    obtain ⟨p, hp⟩ := List.exists_mem_of_ne_nil _ processors.nonempty
    have : (p, d.values.count p) ∈ order.arrange (d.loads processors) := (hmem _).mpr ⟨hp, rfl⟩
    rw [hspec] at this
    simp at this
  · rename_i e hsome
    obtain ⟨he, hmin⟩ := hspec
    obtain ⟨hp, hn⟩ := (hmem e).mp he
    refine ⟨e, hsome, hp, fun q hq => ?_⟩
    have := hmin (q, d.values.count q) ((hmem _).mpr ⟨hq, rfl⟩)
    rwa [hn] at this

/-! ## The invariant -/

/-- What every message leaves as it is. -/
structure Dispatcher.Inv (processors : Processors P) (d : Dispatcher S P) : Prop where
  values : ∀ p ∈ d.values, p ∈ processors.refs
  balanced : Balanced processors.refs d.values
  index : d.index < processors.count

theorem new_inv (processors : Processors P) : (Dispatcher.new : Dispatcher S P).Inv processors where
  values := by simp [Dispatcher.new, Dispatcher.values]
  balanced := balanced_nil _
  index := count_pos processors

variable [DecidableEq S]

theorem register_cases (order : HashOrder P) (d : Dispatcher S P) (hd : d.Inv processors)
    (sender : S) :
    ∃ p, p ∈ processors.refs ∧
      ((d.loadBalanceMap.lookup sender = some p ∧ d.register processors order sender = .ok d) ∨
       (d.loadBalanceMap.lookup sender = none ∧ Least processors.refs d.values p ∧
        d.register processors order sender =
          .ok { d with loadBalanceMap := d.loadBalanceMap.insert sender p })) := by
  by_cases h : sender ∈ d.loadBalanceMap
  · obtain ⟨p, hp⟩ := Option.isSome_iff_exists.mp (AList.lookup_isSome.mpr h)
    have hmem : p ∈ d.values := by
      have := AList.mem_lookup_iff.mp (Option.mem_def.mpr hp)
      exact List.mem_map.mpr ⟨_, this, rfl⟩
    exact ⟨p, hd.values p hmem, Or.inl ⟨hp, by rw [Dispatcher.register, if_pos h]⟩⟩
  · obtain ⟨e, he, hleast⟩ := least_loaded order d hd.values
    refine ⟨e.1, hleast.1, Or.inr ⟨AList.lookup_eq_none.mpr h, hleast, ?_⟩⟩
    rw [Dispatcher.register, if_neg h, he]

theorem insert_inv (d : Dispatcher S P) (hd : d.Inv processors) (sender : S) (p : P)
    (hnew : d.loadBalanceMap.lookup sender = none) (hp : Least processors.refs d.values p) :
    ({ d with loadBalanceMap := d.loadBalanceMap.insert sender p } :
      Dispatcher S P).Inv processors := by
  have hvalues : ({ d with loadBalanceMap := d.loadBalanceMap.insert sender p } :
      Dispatcher S P).values = p :: d.values := by
    simp only [Dispatcher.values, AList.entries_insert_of_notMem (AList.lookup_eq_none.mp hnew),
      List.map_cons]
  constructor
  · rw [hvalues]
    intro q hq
    rcases List.mem_cons.mp hq with rfl | hq
    · exact hp.1
    · exact hd.values q hq
  · rw [hvalues]; exact hd.balanced.cons hp
  · exact hd.index

theorem dispatchDataLoadBalancer_spec (order : HashOrder P) (d : Dispatcher S P)
    (hd : d.Inv processors) (msg : TemperatureMsg S) :
    ∃ d' p, dispatchDataLoadBalancer processors order d msg = .ok (d', [(p, msg)]) ∧
      p ∈ processors.refs ∧ d'.Inv processors ∧ d'.loadBalanceMap.lookup msg.sender = some p ∧
      ∀ x q, d.loadBalanceMap.lookup x = some q → d'.loadBalanceMap.lookup x = some q := by
  obtain ⟨p, hp, ⟨hlookup, hreg⟩ | ⟨hnew, hleast, hreg⟩⟩ := register_cases order d hd msg.sender
  · refine ⟨d, p, ?_, hp, hd, hlookup, fun _ _ h => h⟩
    rw [dispatchDataLoadBalancer, hreg]
    simp only [hlookup]
  · refine ⟨_, p, ?_, hp, insert_inv d hd msg.sender p hnew hleast, AList.lookup_insert _, ?_⟩
    · rw [dispatchDataLoadBalancer, hreg]
      simp only [AList.lookup_insert]
    · intro x q hx
      have hne : x ≠ msg.sender := by rintro rfl; rw [hnew] at hx; simp at hx
      rw [AList.lookup_insert_ne hne]
      exact hx

omit [DecidableEq S] in
theorem dispatchDataRoundRobin_spec (d : Dispatcher S P) (hd : d.Inv processors)
    (msg : TemperatureMsg S) :
    ∃ p, dispatchDataRoundRobin processors d msg =
        .ok ({ d with index := (d.index + 1) % processors.count }, [(p, msg)]) ∧
      p ∈ processors.refs := by
  obtain ⟨p, hp⟩ : ∃ p, processors.refs[d.index]? = some p :=
    ⟨_, List.getElem?_eq_getElem hd.index⟩
  exact ⟨p, by rw [dispatchDataRoundRobin, hp], List.mem_of_getElem? hp⟩

theorem receive_spec (d : Dispatcher S P) (hd : d.Inv processors) (ev : Event S P) :
    ∃ d' sent, d.receive processors ev = .ok (d', sent) ∧ d'.Inv processors ∧
      (∃ p ∈ processors.refs, sent = ev.temperatures.map fun msg => (p, msg)) ∧
      ∀ x q, d.loadBalanceMap.lookup x = some q → d'.loadBalanceMap.lookup x = some q := by
  cases ev with
  | dispatchLogic logic =>
    obtain ⟨p, hp⟩ := List.exists_mem_of_ne_nil _ processors.nonempty
    refine ⟨_, _, rfl, ?_, ⟨p, hp, rfl⟩, ?_⟩
    · unfold onDispatchLogicMsg
      split <;> exact ⟨hd.values, hd.balanced, hd.index⟩
    · intro x q hx
      unfold onDispatchLogicMsg
      split <;> exact hx
  | temperature msg order =>
    simp only [Dispatcher.receive]
    cases d.behavior with
    | loadBalancer =>
      obtain ⟨d', p, hok, hp, hd', -, hkeep⟩ := dispatchDataLoadBalancer_spec order d hd msg
      exact ⟨d', _, hok, hd', ⟨p, hp, rfl⟩, hkeep⟩
    | roundRobin =>
      obtain ⟨p, hok, hp⟩ := dispatchDataRoundRobin_spec d hd msg
      exact ⟨_, _, hok, ⟨hd.values, hd.balanced, Nat.mod_lt _ (count_pos processors)⟩,
        ⟨p, hp, rfl⟩, fun _ _ h => h⟩

theorem receive_inv {d d' : Dispatcher S P} (hd : d.Inv processors) {ev : Event S P}
    {sent : List (P × TemperatureMsg S)} (h : d.receive processors ev = .ok (d', sent)) :
    d'.Inv processors := by
  obtain ⟨d'', sent', hok, hd'', -⟩ := receive_spec d hd ev
  rw [hok] at h
  cases h
  exact hd''

theorem dispatcher_inv {d : Dispatcher S P} (h : (dispatcherSystem processors).Reachable d) :
    d.Inv processors :=
  h.invariant (Dispatcher.Inv processors) (by rintro _ rfl; exact new_inv processors)
    (by rintro d ev d' hd ⟨sent, hs⟩; exact receive_inv hd hs)

theorem receiveAll_reachable {d d' : Dispatcher S P}
    (h : (dispatcherSystem processors).Reachable d) {evs : List (Event S P)}
    (hrun : d.receiveAll processors evs = some d') :
    (dispatcherSystem processors).Reachable d' := by
  induction evs generalizing d with
  | nil => cases hrun; exact h
  | cons ev evs ih =>
    simp only [Dispatcher.receiveAll] at hrun
    split at hrun
    · rename_i d1 sent hok
      exact ih (h.step ⟨sent, hok⟩) hrun
    · cases hrun

theorem lookup_run {d d' : Dispatcher S P} (h : (dispatcherSystem processors).Reachable d)
    {sensor : S} {p : P} (hp : d.loadBalanceMap.lookup sensor = some p) {evs : List (Event S P)}
    (hrun : (dispatcherSystem processors).Run d evs d') :
    d'.loadBalanceMap.lookup sensor = some p := by
  refine hrun.invariant (fun d => d.loadBalanceMap.lookup sensor = some p) ?_ h hp
  rintro s ev t hs hlookup ⟨sent, hok⟩
  obtain ⟨d'', sent', hok', -, -, hkeep⟩ := receive_spec s (dispatcher_inv hs) ev
  rw [hok'] at hok
  cases hok
  exact hkeep sensor p hlookup

theorem forwarded_to_processor {d : Dispatcher S P} (h : d.Inv processors)
    (hmode : d.behavior = .loadBalancer) (msg : TemperatureMsg S) (order : HashOrder P) :
    ∃ d' p, d.receive processors (.temperature msg order) = .ok (d', [(p, msg)]) ∧
      d'.loadBalanceMap.lookup msg.sender = some p ∧
      ∀ q, d.loadBalanceMap.lookup msg.sender = some q → q = p := by
  obtain ⟨d', p, hok, -, -, hlookup, hkeep⟩ := dispatchDataLoadBalancer_spec order d h msg
  refine ⟨d', p, ?_, hlookup, fun q hq => ?_⟩
  · simp only [Dispatcher.receive, hmode]
    exact hok
  · have := hkeep _ _ hq
    rw [hlookup] at this
    exact (Option.some.inj this).symm

/-- Every sensor of the map has a processor, the processors have as many sensors
as each other, give or take one, a sensor keeps its processor in all runs and in
load-balancer mode its temperatures go there and nowhere else, and nothing is ever thrown. -/
theorem load_balancing {d : Dispatcher S P} (h : (dispatcherSystem processors).Reachable d) :
    (∀ sensor p, d.loadBalanceMap.lookup sensor = some p → p ∈ processors.refs) ∧
    (∀ p ∈ processors.refs, ∀ q ∈ processors.refs, d.values.count p ≤ d.values.count q + 1) ∧
    (∀ sensor p, d.loadBalanceMap.lookup sensor = some p →
      ∀ evs d', (dispatcherSystem processors).Run d evs d' →
        d'.loadBalanceMap.lookup sensor = some p ∧
        (d'.behavior = .loadBalancer → ∀ temperature order, ∃ d'',
          d'.receive processors (.temperature ⟨temperature, sensor⟩ order) =
            .ok (d'', [(p, ⟨temperature, sensor⟩)]))) ∧
    (d.behavior = .loadBalancer → ∀ msg order, ∃ d' p,
      d.receive processors (.temperature msg order) = .ok (d', [(p, msg)]) ∧
      d'.loadBalanceMap.lookup msg.sender = some p) ∧
    (∀ ev, ∃ d' sent, d.receive processors ev = .ok (d', sent)) := by
  refine ⟨?_, (dispatcher_inv h).balanced, ?_, ?_, ?_⟩
  · intro sensor p hp
    have := AList.mem_lookup_iff.mp (Option.mem_def.mpr hp)
    exact (dispatcher_inv h).values p (List.mem_map.mpr ⟨_, this, rfl⟩)
  · intro sensor p hp evs d' hrun
    have hp' := lookup_run h hp hrun
    refine ⟨hp', fun hmode temperature order => ?_⟩
    obtain ⟨d'', q, hok, -, hq⟩ := forwarded_to_processor (dispatcher_inv (h.run hrun)) hmode
      ⟨temperature, sensor⟩ order
    rw [hq p hp']
    exact ⟨d'', hok⟩
  · intro hmode msg order
    obtain ⟨d', p, hok, hlookup, -⟩ := forwarded_to_processor (dispatcher_inv h) hmode msg order
    exact ⟨d', p, hok, hlookup⟩
  · intro ev
    obtain ⟨d', sent, hok, -⟩ := receive_spec d (dispatcher_inv h) ev
    exact ⟨d', sent, hok⟩

def twoProcessors : Processors Bool := ⟨[false, true], by decide⟩

def backwards : HashOrder Bool := ⟨List.reverse, List.reverse_perm⟩

/-- Two sensors, a round-robin phase in which one of them goes on, and a third. -/
def switching : List (Event Nat Bool) :=
  [.temperature ⟨20, 1⟩ backwards, .temperature ⟨21, 2⟩ backwards, .dispatchLogic 0,
    .temperature ⟨22, 1⟩ backwards, .dispatchLogic DispatchLogicMsg.LOAD_BALANCER,
    .temperature ⟨23, 3⟩ backwards]

theorem load_balancing_three :
    ∃ d : Dispatcher Nat Bool, (dispatcherSystem twoProcessors).Reachable d ∧
      d.values = [true, true, false] ∧ d.index = 1 ∧
      (∀ p ∈ [false, true], ∀ q ∈ [false, true], d.values.count p ≤ d.values.count q + 1) ∧
      ∃ d' p, d.receive twoProcessors (.temperature ⟨24, 1⟩ backwards) =
        .ok (d', [(p, ⟨24, 1⟩)]) ∧ d'.loadBalanceMap.lookup 1 = some p := by
  have hrun : (Dispatcher.new.receiveAll twoProcessors switching).isSome := by decide
  have hd : (dispatcherSystem twoProcessors).Reachable
      ((Dispatcher.new.receiveAll twoProcessors switching).get hrun) :=
    receiveAll_reachable (.start rfl) (Option.some_get hrun).symm
  obtain ⟨-, hbalanced, -, hforward, -⟩ := load_balancing hd
  exact ⟨_, hd, rfl, rfl, hbalanced, hforward rfl ⟨24, 1⟩ backwards⟩

end Nsds.Sensors
