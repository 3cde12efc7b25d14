import Nsds.Contiki.Es4.Code
import Nsds.Lib.Transition

/-!
# `Contiki-NG/lab/es4/mqtt-demo.c`: the client

The process runs its state machine whenever its periodic timer expires. The MQTT engine,
which is not part of the repository, calls back `mqtt_event` at any time once the client is
registered with it. Nothing is assumed about when it does.

The light and its timer are left out.
-/

namespace Nsds.Es4

open CString Transition

/-- The values of `state` that have a name. -/
inductive Stage where
  | init
  | registered
  | connecting
  | connected
  | publishing
  | disconnected
  | newconfig
  | configError
  | error
deriving DecidableEq, Repr

def retryForever : UInt8 := 0xFF

def reconnectAttempts : UInt8 := retryForever

/-- The configuration, each text in a buffer of its own. -/
structure Config where
  orgId : Buffer 32
  typeId : Buffer 32
  authToken : Buffer 32
  brokerIp : Buffer 64
  cmdType : Buffer 8
  pubInterval : Nat
  brokerPort : UInt16
deriving DecidableEq, Repr

/-- What the client asks of the engine. -/
inductive Call where
  | register (clientId : List Char)
  | usernamePassword (username password : List Char)
  | connect (host : List Char) (port : UInt16) (keepAlive : Nat)
  | subscribe (topic : List Char)
  | publish (publication : Publication)
  | disconnect
deriving DecidableEq, Repr

inductive Entry where
  | call (call : Call)
  /-- `MQTT_EVENT_CONNECTED`. -/
  | connected
  /-- `MQTT_EVENT_DISCONNECTED`. -/
  | disconnected
  /-- `connection_life` has expired, and `connect_attempt` starts again. -/
  | stable
deriving DecidableEq, Repr

/-- The static variables, and what has happened so far. -/
structure Client where
  stage : Stage
  connectAttempt : UInt8
  clientId : Buffer bufferSize
  subTopic : Buffer bufferSize
  state : State
  conf : Config
  publishPeriodicTimer : Option Nat
  log : List Entry
deriving DecidableEq, Repr

/-- What the state machine finds: whether there is a global address, whether
`connection_life` has expired, whether the engine is ready and has sent its buffer, what
`rand()` returns and which router there is. -/
structure Tick where
  global : Bool
  expired : Bool
  ready : Bool
  outBufferSent : Bool
  ran : Nat
  ran_lt : ran < 2 ^ 31
  router : IpAddr

namespace Client

def call (c : Client) (call : Call) : Client := { c with log := c.log ++ [.call call] }

/-- `etimer_set(&publish_periodic_timer, interval)`. -/
def etimerSet (c : Client) (interval : Nat) : Client :=
  { c with publishPeriodicTimer := some interval }

/-! ## Intervals, in ticks of the clock -/

variable (clockSecond : Nat)

def stateMachinePeriodic : Nat := clockSecond >>> 1

def netConnectPeriodic : Nat := clockSecond >>> 2

def reconnectInterval : Nat := clockSecond * 2

def publishInterval : Nat := 10 * clockSecond

/-- After a connection is lost. -/
def backOff (connectAttempt : UInt8) : Nat :=
  if connectAttempt < 3 then reconnectInterval clockSecond <<< connectAttempt.toNat
  else reconnectInterval clockSecond <<< 3

/-! ## Configuration -/

/-- `%02x`. -/
def hex2 (b : UInt8) : List Char :=
  let digits := Nat.toDigits 16 b.toNat
  if digits.length < 2 then '0' :: digits else digits

/-- What `construct_client_id` prints. -/
def clientIdText (conf : Config) (linkaddr : Vector UInt8 8) : List Char :=
  "d:".toList ++ conf.orgId.string ++ ":".toList ++ conf.typeId.string ++ ":".toList ++
    hex2 linkaddr[0] ++ hex2 linkaddr[1] ++ hex2 linkaddr[2] ++ hex2 linkaddr[5] ++
    hex2 linkaddr[6] ++ hex2 linkaddr[7]

def subTopicText : List Char := "iot/+/json".toList

/-- Whether the text fits is returned with the client. -/
def constructClientId (linkaddr : Vector UInt8 8) (c : Client) : Client × Bool :=
  let (clientId, len) := c.clientId.snprintf 0 bufferSize (clientIdText c.conf linkaddr)
  ({ c with clientId := clientId }, !decide (len ≥ bufferSize))

def constructSubTopic (c : Client) : Client × Bool :=
  let (subTopic, len) := c.subTopic.snprintf 0 bufferSize subTopicText
  ({ c with subTopic := subTopic }, !decide (len ≥ bufferSize))

/-- A text that does not fit is a configuration error. -/
def updateConfig (linkaddr : Vector UInt8 8) (c : Client) : Client :=
  let (c, ok) := c.constructClientId linkaddr
  if !ok then { c with stage := .configError }
  else
    let (c, ok) := c.constructSubTopic
    if !ok then { c with stage := .configError }
    else
      let (state, ok) := constructPubTopic c.state
      let c := { c with state := state }
      if !ok then { c with stage := .configError }
      else
        let c := { c with state := { c.state with seqNrValue := 0 }, stage := .init }
        c.etimerSet 0

def initConfig (c : Client) : Client :=
  { c with conf := {
      orgId := (Buffer.zeros 32).write 0 "mqtt-demo".toList
      typeId := (Buffer.zeros 32).write 0 "native".toList
      authToken := (Buffer.zeros 32).write 0 "AUTHZ".toList
      brokerIp := (Buffer.zeros 64).write 0 "fd00::1".toList
      cmdType := (Buffer.zeros 8).write 0 "+".toList
      pubInterval := publishInterval clockSecond
      brokerPort := 1883 } }

/-! ## The state machine -/

/-- A call to the engine, which answers with an event later. -/
def connectToBroker (c : Client) : Client :=
  let c := c.call
    (.connect c.conf.brokerIp.string c.conf.brokerPort (c.conf.pubInterval * 3))
  { c with stage := .connecting }

def subscribe (c : Client) : Client := c.call (.subscribe c.subTopic.string)

def publish (tick : Tick) (c : Client) : Client :=
  match Es4.publish tick.ran tick.router c.state with
  | (state, none) => { c with state := state }
  | (state, some publication) => { c with state := state }.call (.publish publication)

def init (c : Client) : Client :=
  let c := c.call (.register c.clientId.string)
  let c := c.call (.usernamePassword "use-token-auth".toList c.conf.authToken.string)
  { c with connectAttempt := 1, stage := .registered }

/-- Without a global address the client only sets its timer. -/
def registered (tick : Tick) (c : Client) : Client :=
  let c := if tick.global then c.connectToBroker else c
  c.etimerSet (netConnectPeriodic clockSecond)

def connected (tick : Tick) (c : Client) : Client :=
  let c := if tick.expired then { c with connectAttempt := 0, log := c.log ++ [.stable] } else c
  if tick.ready ∧ tick.outBufferSent then
    let c := if c.stage = .connected then { c.subscribe with stage := .publishing }
      else c.publish tick
    c.etimerSet c.conf.pubInterval
  else c.etimerSet (stateMachinePeriodic clockSecond)

/-- Back off, and connect again after it. -/
def disconnected (c : Client) : Client :=
  if c.connectAttempt < reconnectAttempts ∨ reconnectAttempts = retryForever then
    let c := c.call .disconnect
    let c := { c with connectAttempt := c.connectAttempt + 1 }
    { c.etimerSet (backOff clockSecond c.connectAttempt) with stage := .registered }
  else { c with stage := .error }.etimerSet (stateMachinePeriodic clockSecond)

/-- What the state machine does in the stage that it finds. -/
def stateMachine (tick : Tick) (c : Client) : Client :=
  match c.stage with
  -- falls through
  | .init => c.init.registered clockSecond tick
  | .registered => c.registered clockSecond tick
  | .connecting => c.etimerSet (stateMachinePeriodic clockSecond)
  | .connected | .publishing => c.connected clockSecond tick
  | .disconnected => c.disconnected clockSecond
  | .configError | .newconfig | .error => c

/-! ## Runs -/

inductive Event where
  | timer (tick : Tick)
  | connected
  | disconnected
  /-- Another event of the engine, or of the process. -/
  | other

/-- The engine knows `mqtt_event` from when the client is registered. -/
def CallsBack (c : Client) : Prop := ∃ clientId, .call (.register clientId) ∈ c.log

/-- The engine raises any event at any time. -/
inductive Step : Client → Event → Client → Prop where
  | timer {c : Client} {tick : Tick} {interval : Nat} :
      c.publishPeriodicTimer = some interval →
      Step c (.timer tick) ({ c with publishPeriodicTimer := none }.stateMachine clockSecond tick)
  | connected {c : Client} : c.CallsBack →
      Step c .connected { c with stage := .connected, log := c.log ++ [.connected] }
  | disconnected {c : Client} : c.CallsBack →
      Step c .disconnected { c with stage := .disconnected, log := c.log ++ [.disconnected] }
  | other {c : Client} : Step c .other c

/-- Before the process starts, with the static variables as they may be. -/
def Loaded (c : Client) : Prop :=
  c.connectAttempt = 0 ∧ c.publishPeriodicTimer = none ∧ c.log = []

def system (linkaddr : Vector UInt8 8) : System Client Event where
  start c := ∃ loaded : Client, loaded.Loaded ∧
    c = (loaded.initConfig clockSecond).updateConfig linkaddr
  step := Step clockSecond

end Client

end Nsds.Es4
