import Mathlib.Logic.Function.Basic
import Nsds.Lib.Transition

/-!
# `MPI/NSDS_MPI_lab/guess.c`

In every round all processes send a number to the leader, and the leader tells them
who was closest. Every process keeps the leader for itself, and names it as the root
of its own collective calls.
-/

namespace Nsds.Guess

open Transition

def minNum : Int := 1

def maxNum : Int := 1000

/-- `__INT_MAX__`. -/
def intMax : Nat := 2147483647

structure Tuple where
  source : Int
  number : Int
deriving DecidableEq, Repr

/-- `select_number()`, from what `rand()` returns. -/
def selectNumber (rand : Nat) : Int := minNum + rand % (maxNum - minNum + 1)

/-! ## `compute_winner` -/

/-- The local variables of `computeWinner`. -/
structure Search where
  min : Nat
  winner : Int
  multipleGuess : Bool

def Search.turn (numberToGuess : Int) (search : Search) (guess : Tuple) : Search :=
  let diff := (numberToGuess - guess.number).natAbs
  if diff < search.min then { min := diff, winner := guess.source, multipleGuess := false }
  else if diff = search.min then { search with multipleGuess := true }
  else search

def computeWinner (numberToGuess : Int) (buffer : List Tuple) : Int :=
  let search := buffer.foldl (Search.turn numberToGuess)
    { min := intMax, winner := -1, multipleGuess := false }
  if search.multipleGuess then -1 else search.winner

/-! ## The processes -/

/-- Without a winner the leader stays. -/
def updateLeader (leader winner : Int) : Int := if winner ≠ -1 then winner else leader

/-- The array `leaderboard`, of which the entries of the processes are there. -/
abbrev Leaderboard := Int → Nat

def updateLeaderboard (leaderboard : Leaderboard) (winner : Int) : Leaderboard :=
  if winner ≠ -1 then Function.update leaderboard winner (leaderboard winner + 1) else leaderboard

/-- The kinds of calls. -/
inductive Op where
  | gather
  | bcast
  | barrier
deriving DecidableEq, Repr

/-- A collective call, with what the process hands over: its tuple, or the winner if it is
the root. -/
inductive Call where
  | gather (root : Int) (tosend : Tuple)
  | bcast (root : Int) (winner : Option Int)
  | barrier
deriving DecidableEq, Repr

def Call.op : Call → Op
  | .gather .. => .gather
  | .bcast .. => .bcast
  | .barrier => .barrier

/-- The root that a call names. -/
def Call.root : Call → Option Int
  | .gather root _ => some root
  | .bcast root _ => some root
  | .barrier => none

/-- What a process does next: issue a call, or wait for it. The variable `winner` has no
value in a process that is not the leader, until the broadcast. -/
inductive Pc where
  | gather
  | gatherWait
  | bcast (winner : Option Int)
  | bcastWait (winner : Option Int)
  | barrierWait
  | done

/-- A process, with the calls it has issued and what `winner` was after every broadcast.
Process 0 also keeps the leaderboard and prints it. -/
structure Process where
  round : Nat
  pc : Pc
  leader : Int
  calls : List Call
  winners : List Int
  leaderboard : Leaderboard
  printed : List (Nat × Int × List Nat)

abbrev State (numProcs : Nat) := Fin numProcs → Process

/-- `rand r round` is what `rand()` returns to process `r` in a round: for its own number,
and for the number to guess if it is the leader. -/
structure Setup where
  numRounds : Nat
  rand : Nat → Nat → Nat × Nat

variable {numProcs : Nat} (setup : Setup)

/-- The tuple that process `r` sends in a round. -/
def Setup.tosend (r : Fin numProcs) (round : Nat) : Tuple :=
  { source := r.val, number := selectNumber (setup.rand r round).1 }

def Setup.numToGuess (r : Fin numProcs) (round : Nat) : Int := selectNumber (setup.rand r round).2

def Setup.gather (r : Fin numProcs) (p : Process) : Process :=
  { p with calls := p.calls ++ [.gather p.leader (setup.tosend r p.round)], pc := .gatherWait }

def Process.bcast (p : Process) (winner : Option Int) : Process :=
  { p with calls := p.calls ++ [.bcast p.leader winner], pc := .bcastWait winner }

def Process.barrier (p : Process) : Process :=
  { p with calls := p.calls ++ [.barrier], pc := .barrierWait }

def Process.update (r : Fin numProcs) (p : Process) (winner : Int) : Process :=
  let leaderboard := updateLeaderboard p.leaderboard winner
  { p with
    round := p.round + 1
    pc := .gather
    leader := updateLeader p.leader winner
    winners := p.winners ++ [winner]
    leaderboard := if r.val = 0 then leaderboard else p.leaderboard
    printed :=
      if r.val = 0 then
        p.printed ++ [(p.round, winner, (List.range numProcs).map fun i : Nat => leaderboard i)]
      else p.printed }

/-- The call of process `q` that belongs to the last call of `p`. -/
def State.matching (s : State numProcs) (p : Process) (q : Fin numProcs) : Option Call :=
  (s q).calls[p.calls.length - 1]?

def State.set (s : State numProcs) (r : Fin numProcs) (p : Process) : State numProcs :=
  Function.update s r p

inductive Action where
  | gather
  | gathered
  | gatherRoot
  | bcast
  | bcastRoot
  | received
  | barrier
  | barrierLeave

/-- One step of one process. Only the root has to wait in a gather, and only the others in
a broadcast. The calls of one number belong together. -/
inductive Step (s : State numProcs) : Action → State numProcs → Prop where
  | gather (r : Fin numProcs) (hround : (s r).round < setup.numRounds)
      (hpc : (s r).pc = .gather) : Step s .gather (s.set r (setup.gather r (s r)))
  | gathered (r : Fin numProcs) (hr : (s r).leader ≠ r.val) (hpc : (s r).pc = .gatherWait) :
      Step s .gathered (s.set r { s r with pc := .bcast none })
  | gatherRoot (r : Fin numProcs) (buffer : Fin numProcs → Tuple) (hr : (s r).leader = r.val)
      (hpc : (s r).pc = .gatherWait)
      (hall : ∀ q, s.matching (s r) q = some (.gather (s r).leader (buffer q))) :
      Step s .gatherRoot (s.set r { s r with
        pc := .bcast (some (computeWinner (setup.numToGuess r (s r).round)
          ((List.finRange numProcs).map buffer))) })
  | bcast (r : Fin numProcs) (winner : Option Int) (hpc : (s r).pc = .bcast winner) :
      Step s .bcast (s.set r ((s r).bcast winner))
  | bcastRoot (r : Fin numProcs) (winner : Int) (hr : (s r).leader = r.val)
      (hpc : (s r).pc = .bcastWait (some winner)) :
      Step s .bcastRoot (s.set r ((s r).update r winner))
  | received (r root : Fin numProcs) (mine : Option Int) (winner : Int)
      (hr : (s r).leader ≠ r.val) (hroot : (s r).leader = root.val)
      (hpc : (s r).pc = .bcastWait mine)
      (hsent : s.matching (s r) root = some (.bcast (s r).leader (some winner))) :
      Step s .received (s.set r ((s r).update r winner))
  | barrier (r : Fin numProcs) (hround : ¬ (s r).round < setup.numRounds)
      (hpc : (s r).pc = .gather) : Step s .barrier (s.set r (s r).barrier)
  | barrierLeave (r : Fin numProcs) (hpc : (s r).pc = .barrierWait)
      (hall : ∀ q, s.matching (s r) q = some .barrier) :
      Step s .barrierLeave (s.set r { s r with pc := .done })

/-- No process has made a call. -/
def initial (numProcs : Nat) : State numProcs := fun _ =>
  { round := 0, pc := .gather, leader := 0, calls := [], winners := [], leaderboard := fun _ => 0
    printed := [] }

def system (numProcs : Nat) : System (State numProcs) Action where
  start s := s = initial numProcs
  step := Step setup

end Nsds.Guess
