import Mathlib.Algebra.Ring.Nat
import Nsds.Lib.CString

/-!
# `Contiki-NG/lab/es4/mqtt-demo.c`

The topics and the document that are published. Sizes that are passed to `snprintf` are
natural numbers, as no difference of the source is negative.
-/

namespace Nsds.Es4

open CString

def bufferSize : Nat := 64

def appBufferSize : Nat := 512

/-- `uip_ipaddr_t`, as bytes. -/
structure IpAddr where
  u8 : Vector UInt8 16
deriving DecidableEq, Repr

/-- The group of 16 bits at `i`. -/
def IpAddr.group (addr : IpAddr) (i : Nat) : UInt16 :=
  ((addr.u8.getD i 0).toUInt16 <<< 8) + (addr.u8.getD (i + 1) 0).toUInt16

/-! ## `ipaddr_sprintf` -/

/-- The buffer so far, its length, and where the `::` of the address stands. -/
structure Printing (size : Nat) where
  buf : Buffer size
  len : UInt8
  f : Int
deriving DecidableEq, Repr

variable {size : Nat}

/-- `len += snprintf(&buf[len], buf_len - len, ...)`. -/
def Printing.print (s : Printing size) (bufLen : UInt8) (text : List Char) : Printing size :=
  let (buf, written) := s.buf.snprintf s.len.toNat (bufLen.toNat - s.len.toNat) text
  { s with buf := buf, len := s.len + written.toUInt8 }

def Printing.next (bufLen : UInt8) (addr : IpAddr) (s : Printing size) (i : Nat) : Printing size :=
  let a := addr.group i
  if a = 0 ∧ s.f ≥ 0 then
    -- `f++` after the comparison
    if s.f = 0 then { s.print bufLen "::".toList with f := s.f + 1 } else { s with f := s.f + 1 }
  else
    let s := if s.f > 0 then { s with f := -1 } else if i > 0 then s.print bufLen ":".toList else s
    s.print bufLen (Nat.toDigits 16 a.toNat)

def indices : List Nat := [0, 2, 4, 6, 8, 10, 12, 14]

/-- The address in the buffer, and the length of its text. -/
def ipaddrSprintf (buf : Buffer size) (bufLen : UInt8) (addr : IpAddr) : Buffer size × UInt8 :=
  let s := indices.foldl (Printing.next bufLen addr) { buf := buf, len := 0, f := 0 }
  (s.buf, s.len)

/-! ## Topics -/

structure State where
  pubTopicOdd : Buffer bufferSize
  pubTopicEven : Buffer bufferSize
  seqNrValue : UInt16
  appBuffer : Buffer appBufferSize
deriving DecidableEq, Repr

def publishTopicOdd : List Char := "iot/odd/json".toList

def publishTopicEven : List Char := "iot/even/json".toList

/-- The result is false if a topic is cut off. -/
def constructPubTopic (state : State) : State × Bool :=
  let (pubTopicOdd, len1) := state.pubTopicOdd.snprintf 0 bufferSize publishTopicOdd
  let (pubTopicEven, len2) := state.pubTopicEven.snprintf 0 bufferSize publishTopicEven
  ({ state with pubTopicOdd := pubTopicOdd, pubTopicEven := pubTopicEven },
    !(decide (len1 ≥ bufferSize) || decide (len2 ≥ bufferSize)))

/-! ## `publish` -/

/-- What `mqtt_publish` is called with. -/
structure Publication where
  topic : List Char
  payload : List Char
deriving DecidableEq, Repr

/-- Where the next piece of the payload goes, and how much room is left. -/
structure Cursor where
  appBuffer : Buffer appBufferSize
  bufPtr : Nat
  remaining : Nat
deriving DecidableEq, Repr

/-- An error is the buffer after a text that did not fit. -/
def Cursor.print (c : Cursor) (text : List Char) : Except (Buffer appBufferSize) Cursor :=
  let (appBuffer, len) := c.appBuffer.snprintf c.bufPtr c.remaining text
  if len ≥ c.remaining then .error appBuffer
  else .ok { appBuffer := appBuffer, bufPtr := c.bufPtr + len, remaining := c.remaining - len }

/-- The first piece of the payload. -/
def outcome (ran : Nat) (str : List Char) : List Char :=
  "\x7b".toList ++ "\"Number\":\"".toList ++ Nat.toDigits 10 ran ++ "\",".toList ++
    "\"Outcome #\":".toList ++ str ++ "\x7d".toList

/-- The second piece of the payload. -/
def defRoute (defRtStr : List Char) : List Char :=
  ",\"Def Route\":\"".toList ++ defRtStr ++ "\"".toList

/-- The document is printed in three parts. -/
def document (appBuffer : Buffer appBufferSize) (ran : Nat) (str : List Char) (addr : IpAddr) :
    Except (Buffer appBufferSize) Cursor := do
  let c : Cursor := { appBuffer := appBuffer, bufPtr := 0, remaining := appBufferSize }
  let c ← c.print (outcome ran str)
  let (defRtStr, _) := ipaddrSprintf (Buffer.zeros 64) 64 addr
  let c ← c.print (defRoute defRtStr.string)
  c.print "\x7d\x7d".toList

/-- `ran` is what `rand()` returns, and `addr` what `uip_ds6_defrt_choose()` points to. -/
def publish (ran : Nat) (addr : IpAddr) (state : State) : State × Option Publication :=
  let state := { state with seqNrValue := state.seqNrValue + 1 }
  let (str, pubTopic) :=
    if ran % 2 = 0 then ("even".toList, state.pubTopicEven) else ("odd".toList, state.pubTopicOdd)
  match document state.appBuffer ran str addr with
  | .error appBuffer => ({ state with appBuffer := appBuffer }, none)
  | .ok c => ({ state with appBuffer := c.appBuffer },
      some { topic := pubTopic.string, payload := c.appBuffer.string })

/-- The state after some publications, of which each has its number and its address. -/
def after (state : State) (calls : List (Nat × IpAddr)) : State :=
  calls.foldl (fun state (ran, addr) => (publish ran addr state).1) state

end Nsds.Es4
