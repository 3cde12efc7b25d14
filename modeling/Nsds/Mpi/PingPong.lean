import Nsds.Lib.MessagePassing

/-!
# `MPI/NSDS_MPI_tutorial/src/ping_pong.c`

Two processes send a counter to and fro.
-/

namespace Nsds.PingPong

open MessagePassing Relation

inductive Line where
  | sent (num_msgs : Nat)
  | received (num_msgs : Nat)
deriving DecidableEq, Repr

structure Memory where
  num_msgs : Nat
  printed : List Line
deriving DecidableEq, Repr

theorem sub_rank_lt (my_rank : Fin 2) : 1 - my_rank.val < 2 := by omega

def other_rank (my_rank : Fin 2) : Fin 2 := ⟨1 - my_rank.val, sub_rank_lt my_rank⟩

/-- What a process does next. -/
def main (tot_msgs : Nat) (my_rank : Fin 2) (m : Memory) : Op (Fin 2) Nat Memory :=
  if m.num_msgs < tot_msgs then
    if m.num_msgs % 2 = my_rank.val then
      let num_msgs := m.num_msgs + 1
      .send .standard (other_rank my_rank) num_msgs
        { num_msgs, printed := m.printed ++ [.sent num_msgs] }
    else
      .recv (other_rank my_rank) fun num_msgs =>
        { num_msgs, printed := m.printed ++ [.received num_msgs] }
  else .exit

def start : Memory := { num_msgs := 0, printed := [] }

/-- What a process knows and has printed after `n` messages. -/
def turns (n : Nat) (my_rank : Fin 2) : Memory :=
  { num_msgs := n
    printed := (List.range n).map fun i =>
      if i % 2 = my_rank.val then .sent (i + 1) else .received (i + 1) }

variable {tot_msgs n : Nat} {sender receiver : Fin 2}

theorem main_sender (hn : n < tot_msgs) (hs : n % 2 = sender.val) :
    main tot_msgs sender (turns n sender) =
      .send .standard (other_rank sender) (n + 1) (turns (n + 1) sender) := by
  simp [main, turns, hn, hs, List.range_succ]

theorem main_receiver (hn : n < tot_msgs) (hr : n % 2 ≠ receiver.val) :
    ∃ k, main tot_msgs receiver (turns n receiver) = .recv (other_rank receiver) k ∧
      k (n + 1) = turns (n + 1) receiver := by
  refine ⟨fun num_msgs =>
    { num_msgs := num_msgs, printed := (turns n receiver).printed ++ [.received num_msgs] }, ?_, ?_⟩
  · have hcount : (turns n receiver).num_msgs = n := rfl
    unfold main
    rw [hcount, if_pos hn, if_neg hr]
  · simp [turns, hr, List.range_succ]

theorem ranks {sender receiver : Fin 2} (h : sender ≠ receiver) :
    other_rank sender = receiver ∧ other_rank receiver = sender ∧
      ∀ rank, rank = sender ∨ rank = receiver := by
  revert sender receiver
  decide

theorem turn (hn : n < tot_msgs) : Handshake (main tot_msgs) (turns n) (turns (n + 1)) := by
  have hlt : n % 2 < 2 := Nat.mod_lt _ (by omega)
  obtain ⟨sender, receiver, hs, hr, hne⟩ : ∃ sender receiver : Fin 2,
      n % 2 = sender.val ∧ n % 2 ≠ receiver.val ∧ sender ≠ receiver := by
    rcases Nat.mod_two_eq_zero_or_one n with h | h
    · exact ⟨0, 1, by simp [h], by simp [h], by decide⟩
    · exact ⟨1, 0, by simp [h], by simp [h], by decide⟩
  obtain ⟨hreceiver, hsender, hall⟩ := ranks hne
  obtain ⟨k, hrecv, hk⟩ := main_receiver hn hr
  have hsend := main_sender hn hs
  rw [hreceiver] at hsend
  rw [hsender] at hrecv
  have hmeet := Handshake.meet hsend hrecv
  have hturns : Function.update (Function.update (turns n) sender (turns (n + 1) sender)) receiver
      (k (n + 1)) = turns (n + 1) := by
    funext rank
    rcases hall rank with rfl | rfl
    · rw [Function.update_of_ne hne, Function.update_self]
    · rw [Function.update_self, hk]
  rwa [hturns] at hmeet

theorem turns_run (hn : n ≤ tot_msgs) :
    ReflTransGen (Handshake (main tot_msgs)) (fun _ => start) (turns n) := by
  induction n with
  | zero => exact .refl
  | succ n ih => exact (ih (by omega)).tail (turn (by omega))

/-- However the two run and whatever is buffered, both end after `tot_msgs` messages, each of
them sent by one process and received by the other, in order. -/
theorem ping_pong_completes (tot_msgs : Nat) :
    Completes (main tot_msgs) (fun _ => start) (turns tot_msgs) := by
  apply completes_of_handshakes (turns_run (Nat.le_refl _))
  intro rank
  simp [main, turns]

/-- The program has `tot_msgs` at 100. -/
example : turns 2 0 = { num_msgs := 2, printed := [.sent 1, .received 2] } := by decide

end Nsds.PingPong
