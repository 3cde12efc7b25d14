import Mathlib.Algebra.Ring.Int.Defs
import Mathlib.Algebra.Ring.Nat
import Nsds.Lib.Extrema
import Nsds.Lib.History

/-!
# `NodeRed/flows - lab1.json`, Es 7

`function 8` keeps the highest values received in its context, which starts with zeros: the
exercise assumes that no measure is lower than 0. Values are of any linear order.
-/

namespace Nsds.Maxima

open Extrema History

structure SensorDataValue (V : Type) where
  valueType : String
  value : V
deriving DecidableEq, Repr

/-- The maxima so far. -/
structure Context (V : Type) where
  temperature : V
  humidity : V
  pm10 : V
  p25 : V
deriving DecidableEq, Repr

structure Payload (V : Type) where
  temperature : V
  humidity : V
  pm10 : V
  p25 : V
deriving DecidableEq, Repr

variable {V : Type} [LinearOrder V]

/-- The code of `initialize`. -/
def Context.start [Zero V] : Context V where
  temperature := 0
  humidity := 0
  p25 := 0
  pm10 := 0

/-- The `switch` in the body of the loop. -/
def Context.turn (context : Context V) (v : SensorDataValue V) : Context V :=
  match v.valueType with
  | "temperature" =>
    if v.value > context.temperature then { context with temperature := v.value } else context
  | "humidity" =>
    if v.value > context.humidity then { context with humidity := v.value } else context
  | "P1" => if v.value > context.pm10 then { context with pm10 := v.value } else context
  | "P2" => if v.value > context.p25 then { context with p25 := v.value } else context
  | _ => context

def function8 (context : Context V) (values : List (SensorDataValue V)) : Context V × Payload V :=
  let context := values.foldl Context.turn context
  (context, {
    temperature := context.temperature
    humidity := context.humidity
    pm10 := context.pm10
    p25 := context.p25 })

/-- The context after all of `msgs`, of which each is a list of values. -/
def after [Zero V] (msgs : List (List (SensorDataValue V))) : Context V :=
  msgs.foldl (fun context values => (function8 context values).1) .start

/-! ## The measures -/

/-- The four sensors that the function looks for. -/
inductive Measure where
  | temperature
  | humidity
  | p1
  | p2
deriving DecidableEq, Repr

def Measure.valueType : Measure → String
  | .temperature => "temperature"
  | .humidity => "humidity"
  | .p1 => "P1"
  | .p2 => "P2"

def Context.get (context : Context V) : Measure → V
  | .temperature => context.temperature
  | .humidity => context.humidity
  | .p1 => context.pm10
  | .p2 => context.p25

def Payload.get (payload : Payload V) : Measure → V
  | .temperature => payload.temperature
  | .humidity => payload.humidity
  | .p1 => payload.pm10
  | .p2 => payload.p25

/-- All values received of a measure. -/
def received (measure : Measure) (msgs : List (List (SensorDataValue V))) : List V :=
  (msgs.flatten.filter fun v => v.valueType = measure.valueType).map SensorDataValue.value

/-- The highest value received of a measure, or 0 if that is higher. -/
def ReportsMaximum [Zero V] (msgs : List (List (SensorDataValue V))) (payload : Payload V)
    (measure : Measure) : Prop :=
  IsGreatest {v | v = 0 ∨ v ∈ received measure msgs} (payload.get measure) ∧
  ((∃ v ∈ received measure msgs, 0 ≤ v) →
    IsGreatest {v | v ∈ received measure msgs} (payload.get measure))

theorem get_turn (context : Context V) (v : SensorDataValue V) (measure : Measure) :
    (context.turn v).get measure =
      if v.valueType = measure.valueType then max v.value (context.get measure)
      else context.get measure := by
  have hmax (a b : V) : (if a > b then a else b) = max a b := by
    rcases lt_or_ge b a with h | h
    · rw [if_pos h, max_eq_left h.le]
    · rw [if_neg h.not_gt, max_eq_right h]
  unfold Context.turn
  split <;> cases measure <;> simp_all [Context.get, Measure.valueType, apply_ite]

theorem get_foldl (values : List (SensorDataValue V)) (context : Context V) (measure : Measure) :
    (values.foldl Context.turn context).get measure =
      ((values.filter fun v => v.valueType = measure.valueType).map SensorDataValue.value).foldl
        (fun kept v => max v kept) (context.get measure) := by
  induction values generalizing context with
  | nil => rfl
  | cons v values ih =>
    rw [List.foldl_cons, ih, get_turn, List.filter_cons]
    by_cases hv : v.valueType = measure.valueType <;> simp [hv]

variable [Zero V]

theorem after_eq (msgs : List (List (SensorDataValue V))) :
    after msgs = msgs.flatten.foldl Context.turn .start := by
  unfold after
  rw [List.foldl_flatten]
  rfl

theorem get_payload (msgs : List (List (SensorDataValue V))) (msg : List (SensorDataValue V))
    (measure : Measure) :
    (function8 (after msgs) msg).2.get measure =
      (received measure (msgs ++ [msg])).foldl (fun kept v => max v kept) 0 := by
  have hget (context : Context V) :
      (function8 context msg).2.get measure = (msg.foldl Context.turn context).get measure := by
    cases measure <;> rfl
  have hstart : (Context.start : Context V).get measure = 0 := by cases measure <;> rfl
  rw [hget, after_eq, ← List.foldl_append, get_foldl, hstart]
  unfold received
  simp

/-- After every message, the highest value received so far is reported for every measure of
which some value was not negative. -/
theorem running_maxima (msgs : List (List (SensorDataValue V))) :
    Each (fun pre msg => ∀ measure,
      ReportsMaximum (pre ++ [msg]) (function8 (after pre) msg).2 measure) msgs := by
  intro pre msg post _ measure
  have hgreatest := isGreatest_foldl_max 0 (received measure (pre ++ [msg]))
  unfold ReportsMaximum
  rw [get_payload]
  refine ⟨hgreatest, fun ⟨v, hv, h0⟩ => ⟨?_, fun w hw => hgreatest.2 (.inr hw)⟩⟩
  rcases hgreatest.1 with hzero | hmem
  · -- then 0 is no more than a value, and the maximum no less
    have hle := hgreatest.2 (.inr hv)
    rw [hzero] at hle ⊢
    rwa [le_antisymm h0 hle]
  · exact hmem

theorem negative_maximum_lost : ¬ Each (fun pre msg => ∀ measure,
    received measure (pre ++ [msg]) ≠ [] →
      IsGreatest {v | v ∈ received measure (pre ++ [msg])}
        ((function8 (after pre) msg).2.get measure))
    [[({ valueType := "temperature", value := -5 } : SensorDataValue Int)]] := by
  intro h
  have hfirst := h [] _ [] rfl .temperature (by decide)
  exact absurd hfirst.1 (by decide)

end Nsds.Maxima
