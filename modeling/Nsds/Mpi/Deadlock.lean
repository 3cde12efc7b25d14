import Nsds.Lib.MessagePassing

/-!
# `MPI/NSDS_MPI_tutorial/src/deadlock.c`, `deadlock_avoid_isend.c`, `deadlock_avoid_sendrecv.c`

Two processes send each other a number and receive the other's. Only the kind of send differs.
-/

namespace Nsds.Deadlock

open MessagePassing

inductive Pc where
  | send
  | recv
  | wait
  | exit
deriving DecidableEq, Repr

/-- Where a process is, and what it has received. -/
structure Memory where
  pc : Pc
  msg_to_recv : Option Int
deriving DecidableEq, Repr

theorem sub_rank_lt (my_rank : Fin 2) : 1 - my_rank.val < 2 := by omega

def other_rank (my_rank : Fin 2) : Fin 2 := ⟨1 - my_rank.val, sub_rank_lt my_rank⟩

def msg_to_send : Int := 1

def start : Memory := { pc := .send, msg_to_recv := none }

/-- `MPI_Ssend`, then `MPI_Recv`. -/
def deadlock (my_rank : Fin 2) (m : Memory) : Op (Fin 2) Int Memory :=
  match m.pc with
  | .send => .send .synchronous (other_rank my_rank) msg_to_send { m with pc := .recv }
  | .recv => .recv (other_rank my_rank) fun v => { pc := .exit, msg_to_recv := some v }
  | .wait | .exit => .exit

/-- `MPI_Isend`, `MPI_Recv` and `MPI_Wait`. `MPI_Sendrecv` does these in one call. -/
def avoid (my_rank : Fin 2) (m : Memory) : Op (Fin 2) Int Memory :=
  match m.pc with
  | .send => .send .nonblocking (other_rank my_rank) msg_to_send { m with pc := .recv }
  | .recv => .recv (other_rank my_rank) fun v => { pc := .wait, msg_to_recv := some v }
  | .wait => .wait (other_rank my_rank) { m with pc := .exit }
  | .exit => .exit

theorem deadlock_stuck : (system deadlock fun _ => start).Stuck (initial fun _ => start) := by
  intro l t h
  cases h with
  | sure hs =>
    cases hs with
    | alone ha => cases ha
    | meet _ hrecv => cases hrecv
  | buffered hb => cases hb

/-- A process at its end. -/
def received (_ : Fin 2) : Memory := { pc := .exit, msg_to_recv := some msg_to_send }

theorem avoid_completes : Completes avoid (fun _ => start) received := by
  have hrun : ∃ t, (unbuffered avoid fun _ => start).Run (initial fun _ => start)
      [[0], [1], [0], [1], [0], [1]] t ∧ ∀ p, (t p).mem = received p := by
    refine ⟨_, .cons (.alone rfl rfl) <| .cons (.alone rfl rfl) <| .cons (.alone trivial rfl) <|
      .cons (.alone trivial rfl) <| .cons (.alone rfl rfl) <| .cons (.alone rfl rfl) <| .nil _, ?_⟩
    decide
  obtain ⟨t, hrun, hmem⟩ := hrun
  exact completes_of_unbuffered hrun fun p => ⟨hmem p, rfl⟩

/-- The first program has no run but the empty one. All runs of the other two end alike. -/
theorem deadlock_avoided : (system deadlock fun _ => start).Stuck (initial fun _ => start) ∧
    Completes avoid (fun _ => start) received := ⟨deadlock_stuck, avoid_completes⟩

end Nsds.Deadlock
