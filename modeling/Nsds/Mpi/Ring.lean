import Mathlib.Data.List.FinRange
import Nsds.Lib.MessagePassing

/-!
# `MPI/NSDS_MPI_tutorial/src/ring.c`

A message goes around the ring of processes, and every process that sends it counts a hop.
-/

namespace Nsds.Ring

open MessagePassing Relation

/-- What a process prints. -/
inductive Line where
  | sent (num_hops : Int)
  | received (num_hops : Int)
  | final (num_hops : Int)
deriving DecidableEq, Repr

inductive Pc where
  | loop (i : Nat)
  | exit
deriving DecidableEq, Repr

structure Memory where
  pc : Pc
  num_hops : Int
  printed : List Line
deriving DecidableEq, Repr

/-- `main` of the process `my_rank`, up to its next call of MPI or the end of a turn. -/
def main (world_size : Nat) (my_rank : Fin world_size) (m : Memory) :
    Op (Fin world_size) Int Memory :=
  match m.pc with
  | .loop i =>
    if h : i < world_size then
      let sender : Fin world_size := ⟨i, h⟩
      let receiver : Fin world_size := ⟨(i + 1) % world_size, Nat.mod_lt _ (by omega)⟩
      if my_rank = sender then
        let num_hops := m.num_hops + 1
        .send .standard receiver num_hops
          { pc := .loop (i + 1), num_hops, printed := m.printed ++ [.sent num_hops] }
      else if my_rank = receiver then
        .recv sender fun num_hops =>
          { pc := .loop (i + 1), num_hops, printed := m.printed ++ [.received num_hops] }
      else .compute { m with pc := .loop (i + 1) }
    else if my_rank.val = 0 then
      .compute { m with pc := .exit, printed := m.printed ++ [.final m.num_hops] }
    else .compute { m with pc := .exit }
  | .exit => .exit

def start : Memory := { pc := .loop 0, num_hops := 0, printed := [] }

variable {world_size : Nat}

/-! ## Turn by turn -/

/-- `num_hops` of a process when every process has taken `i` turns. -/
def hops (world_size i rank : Nat) : Int :=
  if i = world_size ∧ rank = 0 then world_size
  else if rank < i then rank + 1
  else if rank = i then rank
  else 0

def printed (world_size i rank : Nat) : List Line :=
  (if 0 < rank ∧ rank ≤ i then [.received rank] else []) ++
    (if rank < i then [.sent (rank + 1)] else []) ++
    (if rank = 0 ∧ i = world_size then [.received world_size] else [])

/-- A process that has made `i` turns of the loop. -/
def turns (i : Nat) (rank : Fin world_size) : Memory :=
  { pc := .loop i, num_hops := hops world_size i rank, printed := printed world_size i rank }

/-- A process at its end. -/
def last (rank : Fin world_size) : Memory :=
  { pc := .exit
    num_hops := hops world_size world_size rank
    printed := printed world_size world_size rank ++
      if rank.val = 0 then [.final world_size] else [] }

theorem turns_zero (h : 2 ≤ world_size) : turns 0 = fun _ : Fin world_size => start := by
  funext rank
  have hne : 0 ≠ world_size := by omega
  have hrank : 0 < rank.val → rank.val ≠ 0 := by omega
  simp only [turns, start, hops, printed, Memory.mk.injEq]
  refine ⟨trivial, ?_, ?_⟩
  · split <;> simp_all
  · simpa [hne] using hrank

theorem eq_next_iff {i rank : Nat} (hi : i < world_size) :
    rank = (i + 1) % world_size ↔
      (i + 1 < world_size ∧ rank = i + 1) ∨ (i + 1 = world_size ∧ rank = 0) := by
  rcases Nat.lt_or_ge (i + 1) world_size with hlt | hge
  · rw [Nat.mod_eq_of_lt hlt]
    omega
  · obtain rfl : world_size = i + 1 := by omega
    rw [Nat.mod_self]
    omega

/-! A turn of the process that sends, of the one that receives, and of the others. -/

theorem turns_sender {i : Nat} (h : 2 ≤ world_size) (hi : i < world_size) :
    turns (i + 1) (⟨i, hi⟩ : Fin world_size) =
      { pc := .loop (i + 1), num_hops := hops world_size i i + 1,
        printed := printed world_size i i ++ [.sent (hops world_size i i + 1)] } := by
  have hlast : ¬(i + 1 = world_size ∧ i = 0) := by omega
  have hlast' : ¬(i = 0 ∧ i + 1 = world_size) := by omega
  simp [turns, hops, printed, hlast, hlast', Nat.ne_of_lt hi]

theorem turns_receiver {i : Nat} {receiver : Fin world_size} (h : 2 ≤ world_size)
    (hi : i < world_size) (hreceiver : receiver.val = (i + 1) % world_size) :
    turns (i + 1) receiver =
      { pc := .loop (i + 1), num_hops := hops world_size i i + 1,
        printed := printed world_size i receiver ++ [.received (hops world_size i i + 1)] } := by
  have hhops : hops world_size i i = i := by simp [hops, Nat.ne_of_lt hi]
  unfold turns
  rw [hhops]
  rcases (eq_next_iff hi).mp hreceiver with ⟨hlt, hval⟩ | ⟨hlast, hval⟩
  · have hbefore : ¬(i + 1 ≤ i) := by omega
    have hsent : ¬(i + 1 < i) := by omega
    simp [hops, printed, hval, hbefore, hsent]
  · have hpos : 0 < i := by omega
    have hcast : (world_size : Int) = i + 1 := by omega
    simp [hops, printed, hval, hlast, hpos, hcast, Nat.ne_of_lt hi, Nat.zero_lt_of_lt hi]

theorem turns_other {i : Nat} {rank : Fin world_size} (hi : i < world_size) (hs : rank.val ≠ i)
    (hr : rank.val ≠ (i + 1) % world_size) :
    turns (i + 1) rank = { turns i rank with pc := .loop (i + 1) } := by
  have hlt := rank.isLt
  rw [Ne, eq_next_iff hi] at hr
  have hreceived : (0 < rank.val ∧ rank.val ≤ i + 1) ↔ (0 < rank.val ∧ rank.val ≤ i) := by omega
  have hsent : rank.val < i + 1 ↔ rank.val < i := by omega
  have hlast : (rank.val = 0 ∧ i + 1 = world_size) ↔ (rank.val = 0 ∧ i = world_size) := by omega
  have hhops : hops world_size (i + 1) rank = hops world_size i rank := by
    unfold hops
    split_ifs <;> omega
  simp only [turns, hhops, printed, hreceived, hsent, hlast]

theorem turn {i : Nat} (h : 2 ≤ world_size) (hi : i < world_size) :
    ReflTransGen (Handshake (main world_size)) (turns i) (turns (i + 1)) := by
  let sender : Fin world_size := ⟨i, hi⟩
  let receiver : Fin world_size := ⟨(i + 1) % world_size, Nat.mod_lt _ (by omega)⟩
  have hne : receiver ≠ sender := by
    intro heq
    have hval : (i + 1) % world_size = i := congrArg Fin.val heq
    have hnext := (eq_next_iff hi).mp hval.symm
    omega
  have hsend : main world_size sender (turns i sender) =
      .send .standard receiver (hops world_size i i + 1) (turns (i + 1) sender) := by
    rw [turns_sender h hi]
    simp [main, turns, hi, sender, receiver]
  have hrecv : main world_size receiver (turns i receiver) = .recv sender fun num_hops =>
      { pc := .loop (i + 1), num_hops := num_hops,
        printed := printed world_size i receiver ++ [.received num_hops] } := by
    simp [main, turns, hi, hne, sender, receiver]
  refine .head (.meet hsend hrecv) ?_
  rw [← turns_receiver h hi rfl]
  apply handshakes_compute (List.finRange world_size)
  · simp
  · intro rank
    rcases eq_or_ne rank receiver with rfl | hr
    · simp [receiver]
    rcases eq_or_ne rank sender with rfl | hs
    · simp [hr]
    · right
      rw [Function.update_of_ne hr, Function.update_of_ne hs,
        turns_other hi (fun hval => hs (Fin.ext hval)) (fun hval => hr (Fin.ext hval))]
      simp [main, turns, hi, hs, hr, sender, receiver]

theorem turns_run {i : Nat} (h : 2 ≤ world_size) (hi : i ≤ world_size) :
    ReflTransGen (Handshake (main world_size)) (fun _ => start) (turns i) := by
  induction i with
  | zero => rw [turns_zero h]
  | succ i ih => exact (ih (by omega)).trans (turn h (by omega))

/-- What a process knows and has printed at its end. -/
def final (rank : Fin world_size) : Memory :=
  if rank.val = 0 then
    { pc := .exit, num_hops := world_size
      printed := [.sent 1, .received world_size, .final world_size] }
  else
    { pc := .exit, num_hops := rank + 1, printed := [.received rank, .sent (rank + 1)] }

theorem main_turns (h : 2 ≤ world_size) (rank : Fin world_size) :
    main world_size rank (turns world_size rank) = .compute (final rank) := by
  have hlt := rank.isLt
  rcases Nat.eq_zero_or_pos rank.val with hrank | hrank
  · have hpos : 0 < world_size := by omega
    simp [main, turns, hops, printed, final, hrank, hpos]
  · have hne : rank.val ≠ 0 := by omega
    have hle : rank.val ≤ world_size := by omega
    simp [main, turns, hops, printed, final, hrank, hne, hle]

/-- Whether `MPI_Send` waits for its receiver or not, the message gets all around the ring,
and process 0 prints the number of processes. -/
theorem ring_completes (h : 2 ≤ world_size) :
    Completes (main world_size) (fun _ => start) final := by
  apply completes_of_handshakes
  · refine (turns_run h (Nat.le_refl _)).trans ?_
    apply handshakes_compute (List.finRange world_size)
    · simp
    · exact fun rank => .inr (main_turns h rank)
  · intro rank
    unfold final
    split <;> rfl

theorem ring_completes_two : Completes (main 2) (fun _ => start) final :=
  ring_completes (Nat.le_refl 2)

end Nsds.Ring
