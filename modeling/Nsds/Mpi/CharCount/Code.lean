import Mathlib.Logic.Function.Basic
import Nsds.Lib.MachineInt
import Nsds.Lib.Transition

/-!
# `MPI/NSDS_MPI_tutorial/src/char_count.c`

Every rank counts the letters of its own file, then the ranks exchange the
counts letter by letter. The state is what every rank holds in the exchange
loop, and the pairs that were sent and not received yet.
-/

namespace Nsds.CharCount

open MachineInt Transition

def numLetters : Nat := 26

/-- The count is an `int`. -/
structure CharIntPair where
  c : Char
  count : Int
deriving DecidableEq, Repr

/-- The character of a letter. -/
def letter (i : Fin numLetters) : Char := Char.ofNat (i.val + 'a'.toNat)

/-! ## Phase 1: the counts of one file -/

/-- A character that an input file may hold. -/
abbrev Lower := {c : Char // 'a' ≤ c ∧ c ≤ 'z'}

/-- The characters of a file. -/
abbrev File := List Lower

def cIndex (c : Lower) : Fin numLetters :=
  ⟨c.val.toNat - 'a'.toNat, by
    have h : c.val.toNat ≤ 'z'.toNat := c.property.2
    have hz : 'z'.toNat = 'a'.toNat + 25 := rfl
    unfold numLetters
    omega⟩

/-- `local_count`. -/
abbrev LocalCount := Fin numLetters → CharIntPair

/-- `local_count[i].count += n`. A sum that is no `int` is taken to wrap around. -/
def addCount (localCount : LocalCount) (i : Fin numLetters) (n : Int) : LocalCount :=
  Function.update localCount i { localCount i with count := wrap 32 ((localCount i).count + n) }

def zeroCounts : LocalCount := fun i => { c := letter i, count := 0 }

/-- Phase 1: every character is counted. -/
def countFile (file : File) : LocalCount :=
  file.foldl (fun localCount c => addCount localCount (cIndex c) 1) zeroCounts

/-! ## Phase 2: the exchange -/

/-- One rank in the exchange loop: it is at letter `i`, and if that letter is
its own, it has received `p` pairs for it. -/
structure Rank where
  i : Nat
  p : Nat
  localCount : LocalCount

/-- `pending src dst` is what `src` sent to `dst` and `dst` did not receive yet, oldest first. -/
structure State (worldSize : Nat) where
  ranks : Fin worldSize → Rank
  pending : Fin worldSize → Fin worldSize → List CharIntPair

section

variable {worldSize : Nat}

/-- `i % world_size`. There is a rank, so `world_size` is not 0. -/
def receiver (myRank : Fin worldSize) (i : Nat) : Fin worldSize :=
  ⟨i % worldSize, Nat.mod_lt _ myRank.pos⟩

def Rank.finished (r : Rank) : Prop := r.i = numLetters

def State.setRank (s : State worldSize) (r : Fin worldSize) (rank : Rank) : State worldSize :=
  { s with ranks := Function.update s.ranks r rank }

def State.setPending (s : State worldSize) (src dst : Fin worldSize) (ms : List CharIntPair) :
    State worldSize :=
  { s with pending := Function.update s.pending src (Function.update (s.pending src) dst ms) }

/-- `MPI_Isend(&local_count[i], ..., receiver, ...)`, and on to the next letter. -/
def State.isend (s : State worldSize) (r : Fin worldSize) (i : Fin numLetters) : State worldSize :=
  let rank := s.ranks r
  let dst := receiver r i
  (s.setRank r { rank with i := i + 1 }).setPending r dst (s.pending r dst ++ [rank.localCount i])

/-- `MPI_Recv` of `recBuffer`, the oldest pair that `source` sent to `r`. -/
def State.recv (s : State worldSize) (r source : Fin worldSize) (i : Fin numLetters)
    (recBuffer : CharIntPair) (rest : List CharIntPair) : State worldSize :=
  let rank := s.ranks r
  (s.setRank r { rank with
    p := rank.p + 1
    localCount := addCount rank.localCount i recBuffer.count }).setPending source r rest

/-- The owner is through with a letter. -/
def State.next (s : State worldSize) (r : Fin worldSize) (i : Fin numLetters) : State worldSize :=
  s.setRank r { s.ranks r with i := i + 1, p := 0 }

inductive Action (worldSize : Nat) where
  | isend (r : Fin worldSize)
  | recv (r source : Fin worldSize)
  | next (r : Fin worldSize)

/-- One step of one rank. A receive takes the oldest pair of any sender: MPI
keeps the order of each sender and receiver, and nothing else. -/
inductive Step (s : State worldSize) : Action worldSize → State worldSize → Prop where
  | isend (r : Fin worldSize) (i : Fin numLetters) (hi : (s.ranks r).i = i)
      (hr : receiver r i ≠ r) : Step s (.isend r) (s.isend r i)
  | recv (r source : Fin worldSize) (i : Fin numLetters) (hi : (s.ranks r).i = i)
      (hr : receiver r i = r) (hp : (s.ranks r).p < worldSize - 1)
      (recBuffer : CharIntPair) (rest : List CharIntPair)
      (hm : s.pending source r = recBuffer :: rest) :
      Step s (.recv r source) (s.recv r source i recBuffer rest)
  | next (r : Fin worldSize) (i : Fin numLetters) (hi : (s.ranks r).i = i)
      (hr : receiver r i = r) (hp : ¬ (s.ranks r).p < worldSize - 1) :
      Step s (.next r) (s.next r i)

/-- All files are counted, and nothing was sent. -/
def initial (files : Fin worldSize → File) : State worldSize where
  ranks r := { i := 0, p := 0, localCount := countFile (files r) }
  pending _ _ := []

def system (files : Fin worldSize → File) : System (State worldSize) (Action worldSize) where
  start s := s = initial files
  step := Step

/-- The lines that a rank prints. -/
def printed (r : Fin worldSize) (rank : Rank) : List (Char × Int) :=
  ((List.finRange numLetters).filter fun i : Fin numLetters => receiver r i = r).map fun i =>
    ((rank.localCount i).c, (rank.localCount i).count)

/-- All ranks are through with all letters. -/
def State.allFinished (s : State worldSize) : Prop := ∀ r, (s.ranks r).finished

end

end Nsds.CharCount
