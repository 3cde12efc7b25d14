import Mathlib.Algebra.BigOperators.Ring.Finset
import Mathlib.Algebra.Order.BigOperators.Group.Finset
import Mathlib.Algebra.Order.BigOperators.Group.List
import Mathlib.Tactic.Linarith
import Mathlib.Tactic.Ring
import Nsds.Akka.Sensors.Conservation
import Nsds.Lib.Pairs
import Nsds.Lib.Sum

/-!
# `SensorDataProcessor.java`

The whole program: `main`, the sensors (`TemperatureSensorActor.java` and
`TemperatureSensorFaultyActor.java`), and the dispatcher with its processors. What one actor
sends another arrives in that order. `main` sleeps now and then, and nothing relies on that.
-/

namespace Nsds.Sensors

open Transition

/-! ## Sensors -/

def MIN_TEMP : Int := 0

def MAX_TEMP : Int := 50

def FAULT_TEMP : Int := -50

/-- The two classes of sensors. -/
inductive Kind where
  | working
  | faulty
deriving DecidableEq, Repr

/-- What `onGenerate` may send: `nextInt(MIN_TEMP, MAX_TEMP + 1)`, or always `FAULT_TEMP`. -/
def Kind.Senses : Kind → Int → Prop
  | .working, temp => MIN_TEMP ≤ temp ∧ temp < MAX_TEMP + 1
  | .faulty, temp => temp = FAULT_TEMP

inductive SensorMsg where
  | dispatcherReference
  | generate
deriving DecidableEq, Repr

/-- Whether the field `dispatcher` is set. -/
structure Sensor where
  dispatcher : Bool
deriving DecidableEq, Repr

/-- A sensor that has not been told of the dispatcher. -/
def Sensor.new : Sensor where
  dispatcher := false

/-- The sensor afterwards, and the temperature that it tells the dispatcher. -/
def Sensor.receive (sensor : Sensor) (temp : Int) : SensorMsg → Except Exn (Sensor × Option Int)
  | .dispatcherReference => .ok ({ dispatcher := true }, none)
  | .generate => if sensor.dispatcher then .ok (sensor, some temp) else .error .nullPointer

/-! ## `main` -/

def DispatchLogicMsg.ROUND_ROBIN : Int := 0

/-- What `main` tells, and whom. -/
inductive Tell (S : Type) where
  | sensor (s : S) (msg : SensorMsg)
  | dispatchLogic (logic : Int)
deriving DecidableEq, Repr

section

variable {S P : Type}

def dispatcherReference (s : S) : Tell S := .sensor s .dispatcherReference

def generate (rounds : Nat) (sensors : List S) : List (Tell S) :=
  (List.replicate rounds (sensors.map fun t => .sensor t .generate)).flatten

/-- What `SensorDataProcessor` tells, in this order. -/
def main (SENSING_ROUNDS : Nat) (sensors : List S) (faultySensor : S) : List (Tell S) :=
  sensors.map dispatcherReference ++ generate SENSING_ROUNDS sensors ++
    .dispatchLogic DispatchLogicMsg.ROUND_ROBIN :: generate (SENSING_ROUNDS + 1) sensors ++
    dispatcherReference faultySensor :: generate (SENSING_ROUNDS + 1) (faultySensor :: sensors) ++
    .dispatchLogic DispatchLogicMsg.LOAD_BALANCER :: generate (SENSING_ROUNDS + 1) sensors

/-! ## The program -/

/-- A message in the dispatcher's mailbox. -/
inductive Told (S : Type) where
  | temperature (msg : TemperatureMsg S)
  | dispatchLogic (logic : Int)
deriving DecidableEq, Repr

def Told.event (order : HashOrder P) : Told S → Event S P
  | .temperature msg => .temperature msg order
  | .dispatchLogic logic => .dispatchLogic logic

/-- `main` is what the main thread still has to tell, `state` the dispatcher and its
processors. -/
structure Program (S P : Type) where
  main : List (Tell S)
  sensor : S → Sensor
  sensorMailbox : S → List SensorMsg
  dispatcherMailbox : List (Told S)
  state : State S P

inductive Turn (S P : Type) where
  | main
  | sensor (s : S)
  | dispatcher
  | processor (p : P)

variable [DecidableEq S] [DecidableEq P]

def kind (faultySensor s : S) : Kind := if s = faultySensor then .faulty else .working

/-- A sensor is done with the first message of its mailbox. -/
def Program.sensed (x : Program S P) (s : S) (rest : List SensorMsg) (sensor : Sensor)
    (sent : Option Int) : Program S P :=
  { x with
    sensor := Function.update x.sensor s sensor
    sensorMailbox := Function.update x.sensorMailbox s rest
    dispatcherMailbox := x.dispatcherMailbox ++
      sent.toList.map fun temperature => .temperature { temperature, sender := s } }

/-- Whoever has a message takes a turn. -/
inductive Program.Step (processors : Processors P) (faultySensor : S) (x : Program S P) :
    Turn S P → Program S P → Prop where
  | tellSensor {s : S} {msg : SensorMsg} {rest : List (Tell S)} :
      x.main = .sensor s msg :: rest →
      Step processors faultySensor x .main { x with
        main := rest
        sensorMailbox := Function.update x.sensorMailbox s (x.sensorMailbox s ++ [msg]) }
  | tellDispatcher {logic : Int} {rest : List (Tell S)} : x.main = .dispatchLogic logic :: rest →
      Step processors faultySensor x .main { x with
        main := rest
        dispatcherMailbox := x.dispatcherMailbox ++ [.dispatchLogic logic] }
  | sensor {s : S} {msg : SensorMsg} {rest : List SensorMsg} {temp : Int} {sensor : Sensor}
      {sent : Option Int} : x.sensorMailbox s = msg :: rest →
      (kind faultySensor s).Senses temp → (x.sensor s).receive temp msg = .ok (sensor, sent) →
      Step processors faultySensor x (.sensor s) (x.sensed s rest sensor sent)
  -- a sensor that throws is restarted, with its fields as they were at first
  | restart {s : S} {msg : SensorMsg} {rest : List SensorMsg} {temp : Int} {e : Exn} :
      x.sensorMailbox s = msg :: rest →
      (kind faultySensor s).Senses temp → (x.sensor s).receive temp msg = .error e →
      Step processors faultySensor x (.sensor s) (x.sensed s rest .new none)
  | dispatcher {told : Told S} {rest : List (Told S)} {order : HashOrder P} {state : State S P} :
      x.dispatcherMailbox = told :: rest →
      Sensors.Step processors x.state (.dispatch (told.event order)) state →
      Step processors faultySensor x .dispatcher { x with dispatcherMailbox := rest, state }
  | processor {p : P} {state : State S P} : Sensors.Step processors x.state (.process p) state →
      Step processors faultySensor x (.processor p) { x with state }

def program (processors : Processors P) (SENSING_ROUNDS : Nat) (sensors : List S)
    (faultySensor : S) : System (Program S P) (Turn S P) where
  start x := x = {
    main := main SENSING_ROUNDS sensors faultySensor
    sensor := fun _ => .new
    sensorMailbox := fun _ => []
    dispatcherMailbox := []
    state := .new }
  step := Program.Step processors faultySensor

/-! ## What is on its way -/

def Tell.to (s : S) : Tell S → Option SensorMsg
  | .sensor s' msg => if s' = s then some msg else none
  | .dispatchLogic _ => none

/-- What a sensor has yet to find in its mailbox. -/
def Program.pending (x : Program S P) (s : S) : List SensorMsg :=
  x.sensorMailbox s ++ x.main.filterMap (Tell.to s)

def Told.isFrom (s : S) : Told S → Bool
  | .temperature msg => msg.sender = s
  | .dispatchLogic _ => false

/-- The readings of a sensor that are asked for, and those that it has sent. -/
def Program.asked (x : Program S P) (s : S) : Nat :=
  (x.pending s).count .generate + x.dispatcherMailbox.countP (Told.isFrom s) +
    x.state.handled.countP (·.sender = s)

def Program.Sent (x : Program S P) (msg : TemperatureMsg S) : Prop :=
  .temperature msg ∈ x.dispatcherMailbox ∨ msg ∈ x.state.handled

/-- The readings that are not negative, of one processor and on their way to it. -/
def State.good (state : State S P) (p : P) : Nat :=
  (state.mailbox p).countP (0 ≤ ·.2.temperature) + (state.processed p).countP (0 ≤ ·.2.temperature)

/-- Readings are only asked for and sent as `main` says. -/
structure Program.Inv [Fintype P] (processors : Processors P) (faultySensor : S) (asked : S → Nat)
    (x : Program S P) : Prop where
  state : x.state.Inv processors
  introduced : ∀ s, (x.sensor s).dispatcher = true ∨ (x.pending s).head? ≠ some .generate
  asked : ∀ s, x.asked s = asked s
  sensed : ∀ msg, x.Sent msg → (kind faultySensor msg.sender).Senses msg.temperature
  good : ∑ p, x.state.good p = x.state.handled.countP (0 ≤ ·.temperature)

variable {processors : Processors P} {faultySensor : S} {asked : S → Nat} {x : Program S P}

/-! ## One turn -/

omit [DecidableEq P] in
theorem pending_tell {t : Tell S} {rest : List (Tell S)} (h : x.main = t :: rest) (s : S) :
    x.pending s = x.sensorMailbox s ++ (Tell.to s t).toList ++ rest.filterMap (Tell.to s) := by
  unfold Program.pending
  rw [h, List.filterMap_cons, List.append_assoc]
  cases Tell.to s t <;> rfl

omit [DecidableEq P] in
theorem pending_tellSensor {s : S} {msg : SensorMsg} {rest : List (Tell S)}
    (h : x.main = .sensor s msg :: rest) (s' : S) :
    Program.pending { x with
      main := rest
      sensorMailbox := Function.update x.sensorMailbox s (x.sensorMailbox s ++ [msg]) } s' =
      x.pending s' := by
  rw [pending_tell h]
  unfold Program.pending Tell.to
  rcases eq_or_ne s' s with rfl | hne
  · simp
  · simp [hne, hne.symm]

omit [DecidableEq P] in
theorem pending_tellDispatcher {logic : Int} {rest : List (Tell S)}
    {dispatcherMailbox : List (Told S)} (h : x.main = .dispatchLogic logic :: rest) (s : S) :
    Program.pending { x with main := rest, dispatcherMailbox } s = x.pending s := by
  rw [pending_tell h]
  simp [Program.pending, Tell.to]

omit [DecidableEq P] in
theorem pending_sensed {s : S} {msg : SensorMsg} {rest : List SensorMsg}
    (h : x.sensorMailbox s = msg :: rest) (sensor : Sensor) (sent : Option Int) (s' : S) :
    x.pending s' = (if s' = s then [msg] else []) ++
      (x.sensed s rest sensor sent).pending s' := by
  unfold Program.pending Program.sensed
  rcases eq_or_ne s' s with rfl | hne
  · simp [h]
  · simp [hne]

theorem receive_ok {sensor sensor' : Sensor} {temp : Int} {msg : SensorMsg} {sent : Option Int}
    (h : sensor.receive temp msg = .ok (sensor', sent)) : sensor'.dispatcher = true ∧
      sent = if msg = .generate then some temp else none := by
  cases msg with
  | dispatcherReference =>
    cases h
    exact ⟨rfl, rfl⟩
  | generate =>
    simp only [Sensor.receive] at h
    split at h
    · next hset =>
      cases h
      exact ⟨hset, rfl⟩
    · cases h

omit [DecidableEq S] in
theorem dispatched_good {state : State S P} {ev : Event S P} {d : Dispatcher S P} {p : P} (q : P) :
    (state.dispatched ev d p).good q =
      state.good q + if q = p then ev.temperatures.countP (0 ≤ ·.temperature) else 0 := by
  unfold State.good State.dispatched
  simp only [deliver_map, List.countP_append]
  split
  · next hq =>
    rw [List.countP_map]
    simp only [Function.comp_def]
    omega
  · rfl

omit [DecidableEq S] in
theorem processing_good {state : State S P} {p : P} {sp : SensorProcessor} {k : Nat}
    {msg : TemperatureMsg S} {rest : List (Nat × TemperatureMsg S)}
    (hm : state.mailbox p = (k, msg) :: rest) (q : P) :
    (state.processing p sp k msg rest).good q = state.good q := by
  unfold State.good State.processing
  rcases eq_or_ne q p with rfl | hq
  · simp only [Function.update_self, hm, List.countP_append, List.countP_cons, List.countP_nil]
    omega
  · simp [hq]

variable [Fintype P]

theorem Program.Inv.receive (h : x.Inv processors faultySensor asked) {s : S} {msg : SensorMsg}
    {rest : List SensorMsg} (hm : x.sensorMailbox s = msg :: rest) (temp : Int) :
    ∃ sensor sent, (x.sensor s).receive temp msg = .ok (sensor, sent) := by
  cases msg with
  | dispatcherReference => exact ⟨_, _, rfl⟩
  | generate =>
    have hset := (h.introduced s).resolve_right (by simp [Program.pending, hm])
    exact ⟨_, _, if_pos hset⟩

theorem Program.Inv.tellSensor (h : x.Inv processors faultySensor asked) {s : S} {msg : SensorMsg}
    {rest : List (Tell S)} (hmain : x.main = .sensor s msg :: rest) :
    Program.Inv processors faultySensor asked { x with
      main := rest
      sensorMailbox := Function.update x.sensorMailbox s (x.sensorMailbox s ++ [msg]) } := by
  refine ⟨h.state, fun s' => ?_, fun s' => ?_, h.sensed, h.good⟩
  · rw [pending_tellSensor hmain]
    exact h.introduced s'
  · unfold Program.asked
    rw [pending_tellSensor hmain]
    exact h.asked s'

theorem Program.Inv.tellDispatcher (h : x.Inv processors faultySensor asked) {logic : Int}
    {rest : List (Tell S)} (hmain : x.main = .dispatchLogic logic :: rest) :
    Program.Inv processors faultySensor asked { x with
      main := rest
      dispatcherMailbox := x.dispatcherMailbox ++ [.dispatchLogic logic] } := by
  refine ⟨h.state, fun s => ?_, fun s => ?_, fun msg hmsg => ?_, h.good⟩
  · rw [pending_tellDispatcher hmain]
    exact h.introduced s
  · unfold Program.asked
    rw [pending_tellDispatcher hmain]
    rw [List.countP_append, List.countP_singleton]
    exact h.asked s
  · simp only [Program.Sent, List.mem_append, List.mem_singleton, reduceCtorEq, or_false] at hmsg
    exact h.sensed msg hmsg

theorem Program.Inv.sensor (h : x.Inv processors faultySensor asked) {s : S} {msg : SensorMsg}
    {rest : List SensorMsg} {temp : Int} {sensor : Sensor} {sent : Option Int}
    (hm : x.sensorMailbox s = msg :: rest) (htemp : (kind faultySensor s).Senses temp)
    (hreceive : (x.sensor s).receive temp msg = .ok (sensor, sent)) :
    (x.sensed s rest sensor sent).Inv processors faultySensor asked := by
  have hpending := pending_sensed hm sensor sent
  obtain ⟨hset, rfl⟩ := receive_ok hreceive
  refine ⟨h.state, fun s' => ?_, fun s' => ?_, fun msg' hmsg => ?_, h.good⟩
  · have hintroduced := h.introduced s'
    rcases eq_or_ne s' s with rfl | hne
    · exact .inl (by simpa [Program.sensed] using hset)
    · rw [hpending, if_neg hne, List.nil_append] at hintroduced
      simpa only [Program.sensed, Function.update_of_ne hne] using hintroduced
  · -- a reading that was asked for is sent
    have hasked := h.asked s'
    unfold Program.asked at hasked ⊢
    rw [hpending, List.count_append] at hasked
    rw [← hasked]
    simp only [Program.sensed, List.countP_append]
    rcases eq_or_ne s' s with rfl | hne
    · cases msg
      · simp
      · simp [Told.isFrom]
        omega
    · cases msg <;> simp [Told.isFrom, hne, hne.symm]
  · rcases hmsg with hmsg | hmsg
    · rcases List.mem_append.mp hmsg with hmsg | hmsg
      · exact h.sensed msg' (.inl hmsg)
      · obtain ⟨t, ht, heq⟩ := List.mem_map.mp hmsg
        cases heq
        split at ht
        · obtain rfl : t = temp := by simpa using ht
          exact htemp
        · simp at ht
    · exact h.sensed msg' (.inr hmsg)

theorem Program.Inv.dispatcher (h : x.Inv processors faultySensor asked) {told : Told S}
    {rest : List (Told S)} {order : HashOrder P} {state : State S P}
    (hm : x.dispatcherMailbox = told :: rest)
    (hstep : Sensors.Step processors x.state (.dispatch (told.event order)) state) :
    Program.Inv processors faultySensor asked { x with dispatcherMailbox := rest, state } := by
  cases hstep with
  | dispatch _ d sent hd =>
  obtain ⟨p, rfl, hinv⟩ := dispatch_inv h.state hd
  refine ⟨hinv, h.introduced, fun s => ?_, fun msg hmsg => h.sensed msg ?_, ?_⟩
  · rw [← h.asked s]
    unfold Program.asked
    rw [hm, List.countP_append, List.countP_cons]
    cases told with
    | temperature msg =>
      by_cases hs : msg.sender = s
      · simp [Told.event, Event.temperatures, Told.isFrom, Program.pending, hs]
        omega
      · simp [Told.event, Event.temperatures, Told.isFrom, Program.pending, hs]
    | dispatchLogic => simp [Told.event, Event.temperatures, Told.isFrom, Program.pending]
  · rcases hmsg with hmsg | hmsg
    · exact .inl (by simp [hm, hmsg])
    · rcases List.mem_append.mp hmsg with hmsg | hmsg
      · exact .inr hmsg
      · cases told with
        | temperature => exact .inl (by simp_all [Told.event, Event.temperatures])
        | dispatchLogic => simp [Told.event, Event.temperatures] at hmsg
  · have hgood : ∀ q, (x.state.dispatched (told.event order) d p).good q = x.state.good q +
        if q = p then (told.event order).temperatures.countP (0 ≤ ·.temperature) else 0 :=
      dispatched_good
    have hsum := Sum.sum_eq_add p
      ((told.event order).temperatures.countP fun msg => 0 ≤ msg.temperature)
      ((hgood p).trans (by rw [if_pos rfl]))
      fun q hq => (hgood q).trans (by rw [if_neg hq, Nat.add_zero])
    rw [h.good] at hsum
    exact hsum.trans (List.countP_append ..).symm

theorem Program.Inv.processor (h : x.Inv processors faultySensor asked) {p : P}
    {state : State S P} (hstep : Sensors.Step processors x.state (.process p) state) :
    Program.Inv processors faultySensor asked { x with state } := by
  cases hstep with
  | process _ sp k msg rest hp hm =>
  refine ⟨h.state.processing hp hm, h.introduced, h.asked, h.sensed, ?_⟩
  exact (Finset.sum_congr rfl fun q _ => processing_good hm q).trans h.good

theorem Program.Inv.step {y : Program S P} {turn : Turn S P}
    (h : x.Inv processors faultySensor asked)
    (hstep : Program.Step processors faultySensor x turn y) :
    y.Inv processors faultySensor asked := by
  cases hstep with
  | tellSensor hmain => exact h.tellSensor hmain
  | tellDispatcher hmain => exact h.tellDispatcher hmain
  | sensor hm htemp hreceive => exact h.sensor hm htemp hreceive
  | @restart _ _ _ temp _ hm _ hreceive =>
    obtain ⟨_, _, hok⟩ := h.receive hm temp
    rw [hok] at hreceive
    cases hreceive
  | dispatcher hm hstep => exact h.dispatcher hm hstep
  | processor hstep => exact h.processor hstep

/-! ## What `main` asks for -/

variable {SENSING_ROUNDS : Nat} {sensors : List S}

omit [DecidableEq P] [Fintype P] in
theorem to_dispatcherReference (sensors : List S) (s : S) :
    (sensors.map dispatcherReference).filterMap (Tell.to s) =
      List.replicate (sensors.count s) .dispatcherReference := by
  induction sensors with
  | nil => rfl
  | cons t sensors ih =>
    by_cases hs : t = s
    · simp [dispatcherReference, Tell.to, hs, ih, List.replicate_succ]
    · simp [dispatcherReference, Tell.to, hs, ih]

omit [DecidableEq P] [Fintype P] in
theorem to_generate (rounds : Nat) (sensors : List S) (s : S) :
    (generate rounds sensors).filterMap (Tell.to s) =
      List.replicate (rounds * sensors.count s) .generate := by
  have hround : (sensors.map fun t => Tell.sensor t .generate).filterMap (Tell.to s) =
      List.replicate (sensors.count s) .generate := by
    induction sensors with
    | nil => rfl
    | cons t sensors ih =>
      by_cases hs : t = s
      · simp [Tell.to, hs, ih, List.replicate_succ]
      · simp [Tell.to, hs, ih]
  unfold generate
  induction rounds with
  | zero => simp
  | succ rounds ih =>
    rw [List.replicate_succ, List.flatten_cons, List.filterMap_append, ih, hround,
      List.replicate_append_replicate, Nat.succ_mul, Nat.add_comm]

/-- A working sensor is asked for `4 * SENSING_ROUNDS + 3` readings. -/
def readings (SENSING_ROUNDS : Nat) (sensors : List S) (faultySensor s : S) : Nat :=
  (4 * SENSING_ROUNDS + 3) * sensors.count s +
    if faultySensor = s then SENSING_ROUNDS + 1 else 0

omit [DecidableEq P] [Fintype P] in
theorem to_main (s : S) :
    ((main SENSING_ROUNDS sensors faultySensor).filterMap (Tell.to s)).count .generate =
      readings SENSING_ROUNDS sensors faultySensor s ∧
    ((main SENSING_ROUNDS sensors faultySensor).filterMap (Tell.to s)).head? ≠ some .generate := by
  unfold main readings
  simp only [List.filterMap_append, List.filterMap_cons, to_dispatcherReference, to_generate,
    List.count_cons, dispatcherReference, Tell.to, beq_iff_eq]
  by_cases hf : faultySensor = s
  · constructor
    · simp [hf, List.count_replicate]
      ring
    · rcases sensors.count s with _ | n
      · simp [hf]
      · simp [hf, List.replicate_succ]
  · constructor
    · simp [hf, List.count_replicate]
      ring
    · rcases sensors.count s with _ | n
      · simp [hf]
      · simp [hf, List.replicate_succ]

theorem Program.Inv.start (h : (program processors SENSING_ROUNDS sensors faultySensor).start x) :
    x.Inv processors faultySensor (readings SENSING_ROUNDS sensors faultySensor) := by
  cases h
  refine ⟨state_inv (.start rfl), fun s => ?_, fun s => ?_, fun msg hmsg => ?_, ?_⟩
  · exact .inr (to_main s).2
  · simpa [Program.asked, Program.pending, State.new] using (to_main s).1
  · simp [Program.Sent, State.new] at hmsg
  · simp [State.good, State.new]

theorem Program.Inv.reachable
    (h : (program processors SENSING_ROUNDS sensors faultySensor).Reachable x) :
    x.Inv processors faultySensor (readings SENSING_ROUNDS sensors faultySensor) :=
  h.invariant (Program.Inv processors faultySensor _) (fun _ => Program.Inv.start)
    fun _ _ _ => Program.Inv.step

/-! ## How it ends -/

/-- Nobody has anything to do. -/
def Program.AtRest (x : Program S P) : Prop :=
  x.main = [] ∧ (∀ s, x.sensorMailbox s = []) ∧ x.dispatcherMailbox = [] ∧
    ∀ p, x.state.mailbox p = []

omit [DecidableEq P] [Fintype P] in
theorem kind_sensor {s : S} (hfaulty : faultySensor ∉ sensors) (hs : s ∈ sensors) :
    kind faultySensor s = .working := by
  apply if_neg
  rintro rfl
  exact hfaulty hs

omit [DecidableEq P] [Fintype P] in
theorem readings_sensor {s : S} (hnodup : sensors.Nodup) (hfaulty : faultySensor ∉ sensors)
    (hs : s ∈ sensors) : readings SENSING_ROUNDS sensors faultySensor s =
      4 * SENSING_ROUNDS + 3 := by
  have hne : faultySensor ≠ s := by
    rintro rfl
    exact hfaulty hs
  simp [readings, List.count_eq_one_of_mem hnodup hs, hne]

theorem Program.Inv.good_sender
    (h : x.Inv processors faultySensor (readings SENSING_ROUNDS sensors faultySensor))
    {msg : TemperatureMsg S} (hmem : msg ∈ x.state.handled) (hgood : 0 ≤ msg.temperature) :
    msg.sender ∈ sensors := by
  have hsensed := h.sensed msg (.inr hmem)
  have hasked := h.asked msg.sender
  have hpos : 0 < x.state.handled.countP (·.sender = msg.sender) :=
    List.countP_pos_iff.mpr ⟨msg, hmem, by simp⟩
  by_contra hmem'
  unfold readings at hasked
  unfold Program.asked at hasked
  rw [List.count_eq_zero_of_not_mem hmem'] at hasked
  split at hasked
  · next heq =>
    rw [← heq, kind, if_pos rfl] at hsensed
    simp [Kind.Senses, FAULT_TEMP] at hsensed
    simp [hsensed] at hgood
  · omega

theorem Program.Inv.handled_good
    (h : x.Inv processors faultySensor (readings SENSING_ROUNDS sensors faultySensor))
    (hnodup : sensors.Nodup) (hfaulty : faultySensor ∉ sensors) :
    x.state.handled.countP (0 ≤ ·.temperature) =
      (sensors.map fun s => x.state.handled.countP (·.sender = s)).sum := by
  have hkeys : ∀ msg ∈ x.state.handled.filter (0 ≤ ·.temperature), msg.sender ∈ sensors := by
    intro msg hmsg
    obtain ⟨hmem, hgood⟩ := List.mem_filter.mp hmsg
    exact h.good_sender hmem (of_decide_eq_true hgood)
  rw [List.countP_eq_length_filter, ← Pairs.length_by_key hnodup hkeys]
  congr 1
  refine List.map_congr_left fun s hs => ?_
  rw [List.filter_filter, List.countP_eq_length_filter]
  congr 1
  refine List.filter_congr fun msg hmsg => ?_
  have hsensed := h.sensed msg (.inr hmsg)
  rcases eq_or_ne msg.sender s with rfl | hne
  · rw [kind_sensor hfaulty hs] at hsensed
    have hle : 0 ≤ msg.temperature := hsensed.1
    simp [hle]
  · simp [hne]

theorem Program.Inv.handled_le
    (h : x.Inv processors faultySensor (readings SENSING_ROUNDS sensors faultySensor))
    (hnodup : sensors.Nodup) (hfaulty : faultySensor ∉ sensors) :
    x.state.handled.countP (0 ≤ ·.temperature) ≤ sensors.length * (4 * SENSING_ROUNDS + 3) := by
  rw [h.handled_good hnodup hfaulty]
  refine (List.sum_le_card_nsmul _ (4 * SENSING_ROUNDS + 3) ?_).trans (by simp)
  intro n hn
  obtain ⟨s, hs, rfl⟩ := List.mem_map.mp hn
  rw [← readings_sensor hnodup hfaulty hs, ← h.asked s]
  exact Nat.le_add_left ..

theorem Program.Inv.handled_atRest
    (h : x.Inv processors faultySensor (readings SENSING_ROUNDS sensors faultySensor))
    (hnodup : sensors.Nodup) (hfaulty : faultySensor ∉ sensors) (hrest : x.AtRest) :
    x.state.handled.countP (0 ≤ ·.temperature) = sensors.length * (4 * SENSING_ROUNDS + 3) := by
  obtain ⟨hmain, hsensors, hdispatcher, -⟩ := hrest
  have hasked : ∀ s ∈ sensors, x.state.handled.countP (·.sender = s) =
      4 * SENSING_ROUNDS + 3 := by
    intro s hs
    rw [← readings_sensor hnodup hfaulty hs, ← h.asked s]
    simp [Program.asked, Program.pending, hmain, hsensors, hdispatcher]
  rw [h.handled_good hnodup hfaulty, List.map_congr_left hasked]
  simp

omit [DecidableEq S] [DecidableEq P] [Fintype P] in
theorem length_accepted (state : State S P) (p : P) :
    (state.accepted p).length = (state.processed p).countP (0 ≤ ·.2.temperature) := by
  unfold State.accepted
  rw [← List.countP_eq_length_filter, List.countP_map]
  rfl

theorem Program.Inv.accepted_le (h : x.Inv processors faultySensor asked) (p : P) :
    (x.state.accepted p).length ≤ x.state.handled.countP (0 ≤ ·.temperature) := by
  rw [← h.good, length_accepted]
  have hle : x.state.good p ≤ ∑ p, x.state.good p :=
    Finset.single_le_sum (fun _ _ => Nat.zero_le _) (Finset.mem_univ p)
  exact (Nat.le_add_left _ _).trans hle

theorem Program.Inv.accepted_between (h : x.Inv processors faultySensor asked) {p : P} {t : Int}
    (ht : t ∈ x.state.accepted p) : 0 ≤ t ∧ t ≤ MAX_TEMP := by
  obtain ⟨ht, hpos⟩ := List.mem_filter.mp ht
  obtain ⟨⟨k, msg⟩, hmem, rfl⟩ := List.mem_map.mp ht
  have hknown := h.state.known p _ (List.mem_append_right _ hmem)
  have hsensed := h.sensed msg (.inr (List.mem_of_getElem? hknown))
  have hpos : 0 ≤ msg.temperature := of_decide_eq_true hpos
  refine ⟨hpos, ?_⟩
  cases hkind : kind faultySensor msg.sender with
  | working =>
    rw [hkind] at hsensed
    exact Int.lt_add_one_iff.mp hsensed.2
  | faulty =>
    rw [hkind] at hsensed
    have hfault : msg.temperature = -50 := hsensed
    omega

omit [DecidableEq S] [DecidableEq P] [Fintype P] in
theorem Mean.between {sp : SensorProcessor} {accepted : List Int} (h : Mean sp accepted)
    (hpos : 0 < sp.readings) (hbetween : ∀ t ∈ accepted, 0 ≤ t ∧ t ≤ MAX_TEMP) :
    0 ≤ sp.currentAverage ∧ sp.currentAverage ≤ MAX_TEMP := by
  obtain ⟨hreadings, hmean⟩ := h
  have hlow : 0 ≤ accepted.sum := List.sum_nonneg fun t ht => (hbetween t ht).1
  have hhigh : accepted.sum ≤ accepted.length * MAX_TEMP := by
    simpa using List.sum_le_card_nsmul accepted MAX_TEMP fun t ht => (hbetween t ht).2
  rw [← hreadings] at hhigh
  have hposq : (0 : ℚ) < sp.readings := by exact_mod_cast hpos
  have hlowq : (0 : ℚ) ≤ (accepted.sum : Int) := by exact_mod_cast hlow
  have hhighq : ((accepted.sum : Int) : ℚ) ≤ sp.readings * MAX_TEMP := by exact_mod_cast hhigh
  rw [← hmean] at hlowq hhighq
  constructor
  · exact nonneg_of_mul_nonneg_left hlowq hposq
  · rw [mul_comm] at hhighq
    exact le_of_mul_le_mul_left hhighq hposq

theorem Program.Inv.progress (h : x.Inv processors faultySensor asked) (hrest : ¬ x.AtRest) :
    ∃ turn y, Program.Step processors faultySensor x turn y := by
  by_contra hstuck
  apply hrest
  refine ⟨?_, fun s => ?_, ?_, fun p => ?_⟩
  · by_contra hmain
    obtain ⟨_ | logic, rest, hcons⟩ := List.exists_cons_of_ne_nil hmain
    · exact hstuck ⟨_, _, .tellSensor hcons⟩
    · exact hstuck ⟨_, _, .tellDispatcher hcons⟩
  · by_contra hmailbox
    obtain ⟨msg, rest, hcons⟩ := List.exists_cons_of_ne_nil hmailbox
    obtain ⟨temp, htemp⟩ : ∃ temp, (kind faultySensor s).Senses temp := by
      cases kind faultySensor s with
      | working => exact ⟨MIN_TEMP, Int.le_refl _, by decide⟩
      | faulty => exact ⟨FAULT_TEMP, rfl⟩
    obtain ⟨sensor, sent, hreceive⟩ := h.receive hcons temp
    exact hstuck ⟨_, _, .sensor hcons htemp hreceive⟩
  · by_contra hmailbox
    obtain ⟨told, rest, hcons⟩ := List.exists_cons_of_ne_nil hmailbox
    let order : HashOrder P := ⟨id, fun _ => .refl _⟩
    obtain ⟨d, sent, hreceive, -⟩ :=
      receive_spec x.state.dispatcher h.state.dispatcher (told.event order)
    exact hstuck ⟨_, _, .dispatcher hcons (.dispatch _ d sent hreceive)⟩
  · by_contra hmailbox
    obtain ⟨⟨k, msg⟩, rest, hcons⟩ := List.exists_cons_of_ne_nil hmailbox
    obtain ⟨sp, hsp, -⟩ := h.state.mean p
    exact hstuck ⟨_, _, .processor (.process p sp k msg rest hsp hcons)⟩

/-- No sensor ever fails: it knows the dispatcher by the time that it is to sense something. The
average of every processor is one of working sensors. There is a next turn until everything
is done, and then the processors have counted every reading of the working sensors. -/
theorem readings_complete (hnodup : sensors.Nodup) (hfaulty : faultySensor ∉ sensors)
    (hsize : sensors.length * (4 * SENSING_ROUNDS + 3) < 2 ^ 31 - 1)
    (h : (program processors SENSING_ROUNDS sensors faultySensor).Reachable x) :
    (∀ s msg rest temp, x.sensorMailbox s = msg :: rest →
      ∃ sensor sent, (x.sensor s).receive temp msg = .ok (sensor, sent)) ∧
    ∃ processor : P → SensorProcessor, (∀ p, x.state.children p = some (processor p)) ∧
      (∀ p, 0 < (processor p).readings →
        0 ≤ (processor p).currentAverage ∧ (processor p).currentAverage ≤ MAX_TEMP) ∧
      ((∃ turn y, Program.Step processors faultySensor x turn y) ∨
        x.AtRest ∧
          ∑ p, (processor p).readings = (sensors.length * (4 * SENSING_ROUNDS + 3) : Nat)) := by
  have hinv := Program.Inv.reachable h
  have hle := hinv.handled_le hnodup hfaulty
  have hmean (p : P) : ∃ sp, x.state.children p = some sp ∧ Mean sp (x.state.accepted p) := by
    obtain ⟨sp, hsp, hmean⟩ := hinv.state.mean p
    have haccepted := hinv.accepted_le p
    exact ⟨sp, hsp, hmean (by omega)⟩
  choose processor hprocessor hmean using hmean
  refine ⟨fun s msg rest temp hm => hinv.receive hm temp, processor, hprocessor, ?_, ?_⟩
  · exact fun p hpos => (hmean p).between hpos fun t => hinv.accepted_between
  · by_cases hrest : x.AtRest
    · right
      refine ⟨hrest, ?_⟩
      rw [← hinv.handled_atRest hnodup hfaulty hrest, ← hinv.good, Nat.cast_sum]
      refine Finset.sum_congr rfl fun p _ => ?_
      rw [(hmean p).1, length_accepted]
      simp [State.good, hrest.2.2.2 p]
    · exact .inl (hinv.progress hrest)

theorem readings_complete_four : ∃ x : Program Nat Bool,
    (program twoProcessors 1 [0, 1, 2, 3] 4).Reachable x ∧
      ∃ processor : Bool → SensorProcessor, (∀ p, x.state.children p = some (processor p)) ∧
        (processor false).readings = 1 ∧ (processor false).currentAverage ≤ MAX_TEMP ∧
        ((∃ turn y, Program.Step twoProcessors 4 x turn y) ∨
          x.AtRest ∧ ∑ p, (processor p).readings = 28) := by
  have hstart : (program twoProcessors 1 [0, 1, 2, 3] 4).Reachable _ := .start rfl
  have htemp : (kind 4 0).Senses 20 := ⟨by decide, by decide⟩
  have h1 := hstart.step (.tellSensor rfl)
  have h2 := h1.step (.sensor (s := 0) rfl htemp rfl)
  have h3 := ((h2.step (.tellSensor rfl)).step (.tellSensor rfl)).step (.tellSensor rfl)
  have h4 := h3.step (.tellSensor rfl)
  have h5 := h4.step (.sensor (s := 0) rfl htemp rfl)
  have h6 := h5.step (.dispatcher rfl (.dispatch (.temperature ⟨20, 0⟩ backwards) _ _ rfl))
  have h7 := h6.step (.processor (.process false _ _ _ _ rfl rfl))
  obtain ⟨-, processor, hprocessor, hbounds, hend⟩ :=
    readings_complete (by decide) (by decide) (by decide) h7
  have hreadings : (processor false).readings = 1 :=
    congrArg SensorProcessor.readings (Option.some.inj (hprocessor false)).symm
  exact ⟨_, h7, processor, hprocessor, hreadings, (hbounds false (by omega)).2, hend⟩

end

end Nsds.Sensors
