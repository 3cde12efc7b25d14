import Mathlib.Algebra.Ring.Nat
import Mathlib.Logic.Function.Basic
import Nsds.Lib.MachineInt
import Nsds.Lib.Transition

/-!
# `MPI/NSDS_MPI_tutorial/src/filter.c`

Every worker sends the number of multiples in its array to the master, and then the
multiples, if there are any. The elements are numbers of 32 bits.
-/

namespace Nsds.Filter

open MachineInt Transition

def INT_MIN : Int := -2 ^ 31

abbrev IsInt (n : Int) : Prop := INT_MIN ≤ n ∧ n < 2 ^ 31

/-- `x % num`. The processor traps where there is no quotient, and where it is no `int`. -/
def rem (x num : Int) : Option Int :=
  if num = 0 ∨ x = INT_MIN ∧ num = -1 then none else some (x.tmod num)

/-- `none` is after a trap. -/
def getNumMultiples (array : List Int) (num : Int) : Option Nat :=
  array.foldlM (fun count x => (rem x num).map fun r => if r = 0 then count + 1 else count) 0

/-- `none` is a division that traps. -/
def getMultiples (array : List Int) (num : Int) : Option (List Int) :=
  array.foldlM (fun result x => (rem x num).map fun r => if r = 0 then result ++ [x] else result) []

/-- `eager r msg` is whether `MPI_Send` of `msg` by rank `r` returns before it is received. -/
structure Setup where
  worldSize : Nat
  num : Int
  num_ne_zero : num ≠ 0
  isInt_num : IsInt num
  localArray : Nat → List Int
  isInt_localArray : ∀ r, ∀ x ∈ localArray r, IsInt x
  eager : Nat → List Int → Bool

/-- A worker is about to send, or waits for `MPI_Send` to return. A trap ends its process. -/
inductive WorkerPc where
  | sendCount
  | countSent
  | sendData
  | dataSent
  | done
  | trapped
deriving DecidableEq, Repr

/-- `error` is after a message that does not fit its buffer, or a write past the end of
`result`. -/
inductive MasterPc where
  | counts (proc : Nat)
  | probe (i : Nat)
  | recv (i source count : Nat)
  | returned
  | error
deriving DecidableEq, Repr

/-- `result` is `NULL` at first. What `malloc` returns has no value yet. -/
structure Master where
  pc : MasterPc
  numReceive : Nat
  outSize : Int
  result : Option (List (Option Int))
  firstFreeId : Nat
deriving DecidableEq, Repr

/-- `queue r` is what rank `r` sent to the master and the master did not receive, the oldest
first. -/
structure State where
  master : Master
  workers : Nat → WorkerPc
  queue : Nat → List (List Int)

/-! ## The master -/

def Master.recvCount (master : Master) (proc : Nat) : List Int → Master
  | [procNumResults] => {
      master with
      pc := .counts (proc + 1)
      outSize := wrap 32 (master.outSize + procNumResults)
      numReceive := if procNumResults > 0 then master.numReceive + 1 else master.numReceive }
  | _ => { master with pc := .error }

def Master.allocate (master : Master) : Master :=
  if master.outSize = 0 then { master with pc := .returned }
  else {
    master with
    pc := .probe 0
    result := some (List.replicate master.outSize.toNat none)
    firstFreeId := 0 }

/-- The elements of `msg` from index `start` on. -/
def store (result : List (Option Int)) (start : Nat) (msg : List Int) :
    Option (List (Option Int)) :=
  if start + msg.length ≤ result.length then
    some (result.take start ++ msg.map some ++ result.drop (start + msg.length))
  else none

def Master.recvData (master : Master) (i count : Nat) (msg : List Int) : Master :=
  if msg.length ≤ count then
    match master.result.bind fun result => store result master.firstFreeId msg with
    | some result => {
        master with
        pc := .probe (i + 1)
        result := some result
        firstFreeId := master.firstFreeId + count }
    | none => { master with pc := .error }
  else { master with pc := .error }

/-! ## The steps -/

variable (setup : Setup)

def Setup.numMultiples (r : Nat) : Option Nat := getNumMultiples (setup.localArray r) setup.num

def Setup.multiples (r : Nat) : Option (List Int) := getMultiples (setup.localArray r) setup.num

/-- Every rank but the master. -/
def Setup.IsWorker (r : Nat) : Prop := 0 < r ∧ r < setup.worldSize

/-- A worker sends `msg` to the master. -/
def State.send (s : State) (r : Nat) (msg : List Int) (pc : WorkerPc) : State :=
  { s with
    workers := Function.update s.workers r pc
    queue := Function.update s.queue r (s.queue r ++ [msg]) }

/-- The master has taken the first message of `r`. -/
def State.receive (s : State) (r : Nat) (rest : List (List Int)) (master : Master) : State :=
  { s with master := master, queue := Function.update s.queue r rest }

inductive Action where
  | master
  | worker

/-- Messages of one worker do not overtake each other. A probe finds the first message of
any of them. -/
inductive Step (s : State) : Action → State → Prop where
  | sendCount (r numMultiples : Nat) (hr : setup.IsWorker r) (hpc : s.workers r = .sendCount)
      (hnum : setup.numMultiples r = some numMultiples) :
      Step s .worker (s.send r [(numMultiples : Int)] .countSent)
  | countReturns (r numMultiples : Nat) (hr : setup.IsWorker r)
      (hpc : s.workers r = .countSent) (hnum : setup.numMultiples r = some numMultiples)
      (hsent : setup.eager r [(numMultiples : Int)] = true ∨ s.queue r = []) :
      Step s .worker { s with
        workers := Function.update s.workers r (if numMultiples > 0 then .sendData else .done) }
  | sendData (r : Nat) (out : List Int) (hr : setup.IsWorker r) (hpc : s.workers r = .sendData)
      (hout : setup.multiples r = some out) :
      Step s .worker (s.send r out .dataSent)
  | dataReturns (r : Nat) (out : List Int) (hr : setup.IsWorker r) (hpc : s.workers r = .dataSent)
      (hout : setup.multiples r = some out)
      (hsent : setup.eager r out = true ∨ s.queue r = []) :
      Step s .worker { s with workers := Function.update s.workers r .done }
  | trap (r : Nat) (hr : setup.IsWorker r)
      (htrap : s.workers r = .sendCount ∧ setup.numMultiples r = none ∨
        s.workers r = .sendData ∧ setup.multiples r = none) :
      Step s .worker { s with workers := Function.update s.workers r .trapped }
  | recvCount (proc : Nat) (msg : List Int) (rest : List (List Int))
      (hpc : s.master.pc = .counts proc) (hproc : proc < setup.worldSize)
      (hm : s.queue proc = msg :: rest) :
      Step s .master (s.receive proc rest (s.master.recvCount proc msg))
  | allocate (proc : Nat) (hpc : s.master.pc = .counts proc) (hproc : ¬ proc < setup.worldSize) :
      Step s .master { s with master := s.master.allocate }
  | probe (i source : Nat) (msg : List Int) (rest : List (List Int))
      (hpc : s.master.pc = .probe i) (hi : i < s.master.numReceive)
      (hm : s.queue source = msg :: rest) :
      Step s .master { s with master := { s.master with pc := .recv i source msg.length } }
  | recv (i source count : Nat) (msg : List Int) (rest : List (List Int))
      (hpc : s.master.pc = .recv i source count) (hm : s.queue source = msg :: rest) :
      Step s .master (s.receive source rest (s.master.recvData i count msg))
  | finish (i : Nat) (hpc : s.master.pc = .probe i) (hi : ¬ i < s.master.numReceive) :
      Step s .master { s with master := { s.master with pc := .returned } }

def initial : State where
  master := { pc := .counts 1, numReceive := 0, outSize := 0, result := none, firstFreeId := 0 }
  workers _ := .sendCount
  queue _ := []

def system : System State Action where
  start s := s = initial
  step := Step setup

end Nsds.Filter
