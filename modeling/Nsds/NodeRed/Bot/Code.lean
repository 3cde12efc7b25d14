import Mathlib.Algebra.Ring.Int.Defs
import Mathlib.Algebra.Ring.Nat
import Mathlib.Logic.Function.Basic
import Nsds.Lib.JsString

/-!
# `NodeRed/nodered-group25`

The function nodes of the weather bot (`nodered-group25.json`), with the flow context and the
context of `parse response`. A function runs to its end before the next one starts.
-/

namespace Nsds.Bot

open JsString

inductive RequestType where
  | forecast
  | wind
deriving DecidableEq, Repr

inductive Day where
  | tomorrow
  | inTwoDays
deriving DecidableEq, Repr

def RequestType.text : RequestType → JsString
  | .forecast => js "forecast"
  | .wind => js "wind"

def Day.text : Day → JsString
  | .tomorrow => js "tomorrow"
  | .inTwoDays => js "in two days"

structure RequestInfo where
  day : Day
  type : RequestType
deriving DecidableEq, Repr

structure Location where
  country : JsString
  city : Option JsString
deriving DecidableEq, Repr

structure Payload where
  content : JsString
  inbound : Bool
  fallback : Option JsString
deriving DecidableEq, Repr

/-- The fields of a message that `parse request` reads, sets or deletes. -/
structure Msg where
  payload : Payload
  ts : Option Nat
  transport : Option JsString
  location : Option Location
  requestInfo : Option RequestInfo
deriving DecidableEq, Repr

/-! ## `flow.get("counter")` -/

structure Counter where
  wind : Nat
  forecast : Nat
deriving DecidableEq, Repr

def Counter.zero : Counter where
  wind := 0
  forecast := 0

def Counter.get (counter : Counter) : RequestType → Nat
  | .forecast => counter.forecast
  | .wind => counter.wind

/-- `counter[type]++`. -/
def Counter.increment (counter : Counter) : RequestType → Counter
  | .forecast => { counter with forecast := counter.forecast + 1 }
  | .wind => { counter with wind := counter.wind + 1 }

/-! ## `parse request` -/

def req1 : JsString := js "What tomorrow's forecast in "
def req2 : JsString := js "What's the expected forecast in two days in "
def reqWind1 : JsString := js "What tomorrow's wind speed in "
def reqWind2 : JsString := js "What's the expected wind speed in two days in "

/-- The `type`, the `day` and the `city`, which are all set or none of them. -/
def classify (content : JsString) : Option (RequestType × Day × JsString) :=
  if req1 <+: content then some (.forecast, .tomorrow, content.drop req1.length)
  else if req2 <+: content then some (.forecast, .inTwoDays, content.drop req2.length)
  else if reqWind1 <+: content then some (.wind, .tomorrow, content.drop reqWind1.length)
  else if reqWind2 <+: content then some (.wind, .inTwoDays, content.drop reqWind2.length)
  else none

/-- A question mark at the end is no part of the city. -/
def withoutQuestionMark (city : JsString) : JsString :=
  if city.getLast? = some '?'.toNat.toUInt16 then city.dropLast else city

/-- The counter afterwards, and the messages for the two outputs. -/
def parseRequest (counter : Counter) (msg : Msg) : Counter × Option Msg × Option Msg :=
  let message : Msg := {
    payload := { msg.payload with inbound := false, fallback := none }
    ts := none
    transport := none
    location := some { country := js "IT", city := none }
    requestInfo := msg.requestInfo }
  match classify msg.payload.content with
  | some (type, day, city) =>
    (counter.increment type,
      some { message with
        location := some { country := js "IT", city := some (withoutQuestionMark city) }
        requestInfo := some { day := day, type := type } },
      none)
  | none =>
    (counter, none,
      some { message with
        payload := { message.payload with content := js "Command not recognized" } })

/-! ## `save into file` -/

/-- What is written in a line: the payload of the tick, and the two counts. -/
structure Line where
  payload : JsString
  forecast : Nat
  wind : Nat
deriving DecidableEq, Repr

def Line.text (line : Line) : JsString :=
  line.payload ++ js " -> forecast: " ++ decimal line.forecast ++ js ", wind: " ++
    decimal line.wind

/-- The counters are written and start from zero again. -/
def saveIntoFile (counter : Counter) (payload : JsString) : Counter × Line :=
  (.zero, { payload := payload, forecast := counter.forecast, wind := counter.wind })

/-! ## `parse response` -/

/-- Three hours of the forecast. `description` is that of `weather[0]`. -/
structure Entry (N : Type) where
  description : JsString
  speed : N
deriving DecidableEq, Repr

structure Response (N : Type) where
  city : JsString
  requestInfo : RequestInfo
  payload : List (Entry N)
deriving DecidableEq, Repr

/-- `context.get("res")`. -/
abbrev Responses := JsString → Option JsString

variable {N : Type}

/-- The key of `responses`. -/
def index (type : RequestType) (day : Day) (city : JsString) : JsString :=
  type.text ++ day.text ++ city

/-- The answer itself. `numberText` is what a number is converted to. -/
def weatherText (numberText : N → JsString) (msg : Response N) : Option JsString :=
  match msg.requestInfo.type, msg.requestInfo.day with
  | .forecast, .tomorrow => msg.payload[8]?.map fun tomorrow =>
    js "Tomorrow's forecast for " ++ msg.city ++ js " is " ++ tomorrow.description ++ js "!"
  | .forecast, .inTwoDays => msg.payload[16]?.map fun twoDays =>
    js "Expected forecast for " ++ msg.city ++ js " in two days is " ++ twoDays.description ++
      js "!"
  | .wind, .tomorrow => msg.payload[8]?.map fun tomorrow =>
    js "Tomorrow's wind speed in " ++ msg.city ++ js " is " ++ numberText tomorrow.speed ++ js "!"
  | .wind, .inTwoDays => msg.payload[16]?.map fun twoDays =>
    js "Expected wind speed in " ++ msg.city ++ js " in two days is " ++ numberText twoDays.speed ++
      js "!"

def same : JsString := js " It is the same as the last time I was asked!"
def changed : JsString := js " It changed since the last time I was asked!"

/-- The function throws, and sends nothing, if the forecast ends before the day asked for. -/
def parseResponse (numberText : N → JsString) (responses : Responses) (msg : Response N) :
    Option (Responses × JsString) :=
  let index := index msg.requestInfo.type msg.requestInfo.day msg.city
  (weatherText numberText msg).map fun payload =>
    if responses index = some payload then (responses, payload ++ same)
    else (Function.update responses index (some payload), payload ++ changed)

end Nsds.Bot
