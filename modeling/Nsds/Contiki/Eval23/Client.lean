import Mathlib.Algebra.Field.Rat

/-!
# `Contiki-NG/NSDS-contiking-eval-23/udp-client.c`

The client wakes up periodically, reads a temperature and sends it. While it is
disconnected it saves the temperatures, and when it is back it sends their average. The
arithmetic is exact: `sum` and `no` do not wrap, and an average is not rounded.
-/

namespace Nsds.Eval23

def maxReadings : Nat := 10

def fakeTemps : List Nat := [30, 25, 20, 15, 10]

/-- `random` is what `random_rand()` returns, and 5 is `FAKE_TEMPS`. -/
def getTemperature (random : Nat) : Nat :=
  fakeTemps.get ⟨random % 5, Nat.mod_lt random (by decide)⟩

/-- An expiration of `periodic_timer`, with what the calls return that follow it. -/
structure WakeUp where
  random : Nat
  nodeIsReachable : Bool
  getRootIpaddr : Bool
deriving DecidableEq, Repr

def WakeUp.temperature (w : WakeUp) : Nat := getTemperature w.random

/-- Both calls have to succeed. -/
def WakeUp.connected (w : WakeUp) : Bool := w.nodeIsReachable && w.getRootIpaddr

/-- The static variables. -/
structure Client where
  readings : List Nat
  nextReading : Nat
  disconnected : Bool
  sum : Nat
  no : Nat
deriving DecidableEq, Repr

/-- What the client sends. -/
inductive Datagram where
  | average (value : ℚ)
  | temperature (value : Nat)
deriving DecidableEq

def Client.start : Client where
  readings := List.replicate maxReadings 0
  nextReading := 0
  disconnected := false
  sum := 0
  no := 0

/-- A slot with 0 is taken to be empty. -/
def addReading : Nat × Nat → Nat → Nat × Nat
  | (sum, no), reading => if reading ≠ 0 then (sum + reading, no + 1) else (sum, no)

/-- What is sent between the two waits of the loop, and after the second. -/
def Client.wakeUp (c : Client) (w : WakeUp) : Client × List Datagram :=
  let temperature := w.temperature
  if w.connected then
    if c.disconnected then
      let (sum, no) := c.readings.foldl addReading (c.sum, c.no)
      ({ c with
          sum := sum
          no := no
          disconnected := false
          readings := List.replicate maxReadings 0 },
        [.average (sum / no), .temperature temperature])
    else (c, [.temperature temperature])
  else
    ({ c with
        disconnected := true
        readings := c.readings.set c.nextReading temperature
        nextReading := if c.nextReading + 1 = maxReadings then 0 else c.nextReading + 1 },
      [])

/-- The client after the wake-ups. -/
def Client.after (ws : List WakeUp) : Client :=
  ws.foldl (fun c w => (c.wakeUp w).1) .start

end Nsds.Eval23
