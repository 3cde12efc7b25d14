import Mathlib.Algebra.Ring.Int.Defs
import Mathlib.Algebra.Ring.Nat
import Mathlib.Logic.Function.Basic
import Nsds.Lib.Transition

/-!
# `MPI/NSDS_MPI_lab/linear_road.c`

Every rank holds a part of the road. In each iteration it moves its cars, sends
those that leave its part to the next rank, and receives those of the one before.
-/

namespace Nsds.LinearRoad

open Transition

def countEvery : Nat := 10

/-- An `int` array, of which only the first entries are there. The program lets at most 9 cars in,
in each of 1000 iterations, so that every number of cars fits an `int`. -/
abbrev Segments := Nat → Nat

/-! ## The loops of one iteration -/

/-- `for (int c = 0; c < segments[s]; c++)`, from a value of `c` on, with `here` for
`segments[s]`. A car that moves is counted `ahead`: in `exiting_cars`, or in
`segments[s + 1]`. -/
def moveCars (moveNextSegment : Nat → Bool) (c here ahead : Nat) : Nat × Nat :=
  if c < here then
    if moveNextSegment c then moveCars moveNextSegment (c + 1) (here - 1) (ahead + 1)
    else moveCars moveNextSegment (c + 1) here ahead
  else (here, ahead)
termination_by here - c

section

-- `moves segment c` is draw number `c` at a segment of the whole road. The part of a
-- rank begins at segment `offset`.
variable (moves : Nat → Nat → Bool) (offset : Nat)

/-- The loop over the last segment: the segments after it, and `exiting_cars`. -/
def exitCars (last : Nat) (segments : Segments) : Segments × Nat :=
  let (here, exitingCars) := moveCars (moves (offset + last)) 0 (segments last) 0
  (Function.update segments last here, exitingCars)

/-- `for (int s = n - 1; s >= 0; s--)`. -/
def moveAcross : (n : Nat) → Segments → Segments
  | 0, segments => segments
  | s + 1, segments =>
    let (here, ahead) := moveCars (moves (offset + s)) 0 (segments s) (segments (s + 1))
    moveAcross s (Function.update (Function.update segments s here) (s + 1) ahead)

/-- `segments[0] += n`. -/
def enterCars (segments : Segments) (n : Nat) : Segments :=
  Function.update segments 0 (segments 0 + n)

def localSum (len : Nat) (segments : Segments) : Nat := ((List.range len).map segments).sum

/-! ## A single process -/

/-- The segments, and how many cars have left the last one. -/
structure Road where
  segments : Segments
  left : Nat

def iteration (len input : Nat) (road : Road) : Road :=
  let (segments, exitingCars) := exitCars moves 0 (len - 1) road.segments
  { segments := enterCars (moveAcross moves 0 (len - 1) segments) input
    left := road.left + exitingCars }

/-- The road before iteration `it`. -/
def road (moves : Nat → Nat → Nat → Bool) (input : Nat → Nat) (len : Nat) : (it : Nat) → Road
  | 0 => { segments := fun _ => 0, left := 0 }
  | it + 1 => iteration (moves it) len (input it) (road moves input len it)

end

/-! ## The ranks -/

/-- What a run depends on. `move_next_segment` is given by the iteration, the segment of the
whole road and the number of the draw. Whether MPI buffers the message of a rank, and
whether `MPI_Reduce` lets it go on before all others are there, may differ every time. -/
structure Setup (numProcs : Nat) where
  numSegments : Nat
  numIterations : Nat
  moveNextSegment : Nat → Nat → Nat → Bool
  createRandomInput : Nat → Nat
  buffered : Fin numProcs → Nat → Bool
  early : Fin numProcs → Nat → Bool
  len_pos : 0 < numSegments / numProcs

inductive Pc where
  | exit
  | send (exitingCars : Nat)
  | move
  | recv
  | reduce
  | reduceWait
  | barrier
  | barrierWait

/-- A rank, with the sums that it handed to `MPI_Reduce` and how often it came to
`MPI_Barrier`: the calls of one number belong together. -/
structure Rank where
  it : Nat
  pc : Pc
  segments : Segments
  contributed : List Nat
  barriers : Nat

/-- `pending r` is what rank `r` sent and the next one did not receive yet. -/
structure State (numProcs : Nat) where
  ranks : Fin numProcs → Rank
  pending : Fin numProcs → List Nat
  printed : List (Nat × Nat)

variable {numProcs : Nat} (setup : Setup numProcs)

def Setup.len : Nat := setup.numSegments / numProcs

def Setup.offset (r : Fin numProcs) : Nat := r * setup.len

def Setup.exit (r : Fin numProcs) (rank : Rank) : Rank :=
  let (segments, exitingCars) :=
    exitCars (setup.moveNextSegment rank.it) (setup.offset r) (setup.len - 1) rank.segments
  { rank with
    segments := segments
    pc := if r.val = numProcs - 1 then .move else .send exitingCars }

def Setup.move (r : Fin numProcs) (rank : Rank) : Rank :=
  { rank with
    segments :=
      moveAcross (setup.moveNextSegment rank.it) (setup.offset r) (setup.len - 1) rank.segments
    pc := .recv }

/-- `segments[0] += n`, and on to the reduction if there is one. -/
def Rank.enter (rank : Rank) (n : Nat) : Rank :=
  { rank with
    segments := enterCars rank.segments n
    pc := if rank.it % countEvery = 0 then .reduce else .barrier }

def Setup.reduce (rank : Rank) : Rank :=
  { rank with
    contributed := rank.contributed ++ [localSum setup.len rank.segments]
    pc := .reduceWait }

def Rank.barrier (rank : Rank) : Rank :=
  { rank with barriers := rank.barriers + 1, pc := .barrierWait }

def Rank.next (rank : Rank) : Rank := { rank with it := rank.it + 1, pc := .exit }

/-- Every rank has made the reduction that `rank` is at. -/
def State.reducible (s : State numProcs) (rank : Rank) : Prop :=
  ∀ q, rank.contributed.length ≤ (s.ranks q).contributed.length

/-- The sum of what the ranks contributed to the reduction that `rank` is at. -/
def State.globalSum (s : State numProcs) (rank : Rank) : Nat :=
  ((List.finRange numProcs).map fun q =>
    (s.ranks q).contributed.getD (rank.contributed.length - 1) 0).sum

def State.setRank (s : State numProcs) (r : Fin numProcs) (rank : Rank) : State numProcs :=
  { s with ranks := Function.update s.ranks r rank }

def State.setPending (s : State numProcs) (r : Fin numProcs) (ns : List Nat) : State numProcs :=
  { s with pending := Function.update s.pending r ns }

inductive Action where
  | exit
  | sendBuffered
  | sendRendezvous
  | move
  | input
  | recv
  | reduce
  | reduceLeave
  | reduceRoot
  | barrier
  | barrierLeave

/-- One step of one rank, or of two that meet. A send that is not buffered waits for the
receive. -/
inductive Step (s : State numProcs) : Action → State numProcs → Prop where
  | exit (r : Fin numProcs) (hit : (s.ranks r).it < setup.numIterations)
      (hpc : (s.ranks r).pc = .exit) : Step s .exit (s.setRank r (setup.exit r (s.ranks r)))
  | sendBuffered (r : Fin numProcs) (exitingCars : Nat) (hpc : (s.ranks r).pc = .send exitingCars)
      (hb : setup.buffered r (s.ranks r).it = true) :
      Step s .sendBuffered
        ((s.setRank r { s.ranks r with pc := .move }).setPending r (s.pending r ++ [exitingCars]))
  | sendRendezvous (r next : Fin numProcs) (exitingCars : Nat) (hnext : next.val = r.val + 1)
      (hpc : (s.ranks r).pc = .send exitingCars) (hb : setup.buffered r (s.ranks r).it = false)
      (hrecv : (s.ranks next).pc = .recv) (hp : s.pending r = []) :
      Step s .sendRendezvous
        ((s.setRank r { s.ranks r with pc := .move }).setRank next
          ((s.ranks next).enter exitingCars))
  | move (r : Fin numProcs) (hpc : (s.ranks r).pc = .move) :
      Step s .move (s.setRank r (setup.move r (s.ranks r)))
  | input (r : Fin numProcs) (hr : r.val = 0) (hpc : (s.ranks r).pc = .recv) :
      Step s .input
        (s.setRank r ((s.ranks r).enter (setup.createRandomInput (s.ranks r).it)))
  | recv (prev r : Fin numProcs) (buff : Nat) (rest : List Nat) (hr : r.val = prev.val + 1)
      (hpc : (s.ranks r).pc = .recv) (hp : s.pending prev = buff :: rest) :
      Step s .recv ((s.setRank r ((s.ranks r).enter buff)).setPending prev rest)
  | reduce (r : Fin numProcs) (hpc : (s.ranks r).pc = .reduce) :
      Step s .reduce (s.setRank r (setup.reduce (s.ranks r)))
  | reduceLeave (r : Fin numProcs) (hr : r.val ≠ 0) (hpc : (s.ranks r).pc = .reduceWait)
      (hall : setup.early r (s.ranks r).it = true ∨ s.reducible (s.ranks r)) :
      Step s .reduceLeave (s.setRank r { s.ranks r with pc := .barrier })
  | reduceRoot (r : Fin numProcs) (hr : r.val = 0) (hpc : (s.ranks r).pc = .reduceWait)
      (hall : s.reducible (s.ranks r)) :
      Step s .reduceRoot
        { s.setRank r { s.ranks r with pc := .barrier } with
          printed := s.printed ++ [((s.ranks r).it, s.globalSum (s.ranks r))] }
  | barrier (r : Fin numProcs) (hpc : (s.ranks r).pc = .barrier) :
      Step s .barrier (s.setRank r (s.ranks r).barrier)
  | barrierLeave (r : Fin numProcs) (hpc : (s.ranks r).pc = .barrierWait)
      (hall : ∀ q, (s.ranks r).barriers ≤ (s.ranks q).barriers) :
      Step s .barrierLeave (s.setRank r (s.ranks r).next)

def initial (numProcs : Nat) : State numProcs where
  ranks _ := { it := 0, pc := .exit, segments := fun _ => 0, contributed := [], barriers := 0 }
  pending _ := []
  printed := []

def system : System (State numProcs) Action where
  start s := s = initial numProcs
  step := Step setup

def Setup.finished (rank : Rank) : Prop := rank.pc = .exit ∧ ¬ rank.it < setup.numIterations

end Nsds.LinearRoad
