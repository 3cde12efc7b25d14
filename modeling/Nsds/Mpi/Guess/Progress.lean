import Mathlib.Algebra.Order.BigOperators.Group.Finset
import Nsds.Lib.Sum
import Nsds.Mpi.Guess.Proofs

/-!
# `guess.c` comes to its end

All processes call the same collectives with the same roots. So one that has made the fewest calls
can always go on, even if a call keeps everyone until all have come.
-/

namespace Nsds.Guess

open Transition

variable {numProcs : Nat} {setup : Setup} {s t : State numProcs} {r : Fin numProcs} {p : Process}
  {a : Action}

/-! ## How far a process is -/

/-- The steps of a process so far: four in a round, and two for the barrier. -/
def Process.taken (p : Process) : Nat :=
  4 * p.round + match p.pc with
    | .gather => 0
    | .gatherWait | .barrierWait => 1
    | .bcast _ | .done => 2
    | .bcastWait _ => 3

/-- The steps of one process to its end. -/
def Setup.steps (setup : Setup) : Nat := 4 * setup.numRounds + 2

/-- Only a process that has made all its rounds leaves the loop. -/
structure InLoop (setup : Setup) (p : Process) : Prop where
  round : p.round ≤ setup.numRounds
  left : p.pc = .barrierWait ∨ p.pc = .done → p.round = setup.numRounds

theorem step_taken (h : Step setup s a t) : ∃ r p, t = s.set r p ∧ p.taken = (s r).taken + 1 := by
  cases h with
  | gather r hround hpc => exact ⟨r, _, rfl, by simp [Process.taken, Setup.gather, hpc]⟩
  | gathered r hr hpc => exact ⟨r, _, rfl, by simp [Process.taken, hpc]⟩
  | gatherRoot r buffer hr hpc hall => exact ⟨r, _, rfl, by simp [Process.taken, hpc]⟩
  | bcast r winner hpc => exact ⟨r, _, rfl, by simp [Process.taken, Process.bcast, hpc]⟩
  | bcastRoot r winner hr hpc =>
    exact ⟨r, _, rfl, by simp [Process.taken, Process.update, hpc]; omega⟩
  | received r root mine winner hr hroot hpc hsent =>
    exact ⟨r, _, rfl, by simp [Process.taken, Process.update, hpc]; omega⟩
  | barrier r hround hpc => exact ⟨r, _, rfl, by simp [Process.taken, Process.barrier, hpc]⟩
  | barrierLeave r hpc hall => exact ⟨r, _, rfl, by simp [Process.taken, hpc]⟩

theorem sum_taken {as : List Action} (h : (system setup numProcs).Run s as t) :
    ∑ r, (t r).taken = ∑ r, (s r).taken + as.length := by
  induction h with
  | nil => rfl
  | @cons s u t a as hs _ ih =>
    obtain ⟨r, p, rfl, htaken⟩ := step_taken hs
    have hset : ∀ q, q ≠ r → (s.set r p q).taken = (s q).taken := by
      intro q hq
      simp [State.set, hq]
    have hsum := Sum.sum_eq_add r 1 (f := fun q => (s.set r p q).taken) (g := fun q => (s q).taken)
      (by simp [State.set, htaken]) hset
    rw [ih, hsum, List.length_cons]
    omega

theorem InLoop.step (h : ∀ r, InLoop setup (s r)) (hinv : Inv setup s) (hstep : Step setup s a t) :
    ∀ r, InLoop setup (t r) := by
  -- the others stay where they are
  have hset {r : Fin numProcs} {p : Process} (hp : InLoop setup p) :
      ∀ q, InLoop setup (s.set r p q) := by
    intro q
    unfold State.set
    rcases eq_or_ne q r with rfl | hq
    · rw [Function.update_self]
      exact hp
    · rw [Function.update_of_ne hq]
      exact h q
  have hrunning (r : Fin numProcs) (hr : (s r).pc.inRound) : (s r).round < setup.numRounds :=
    (hinv r).running hr
  cases hstep with
  | gather r => exact hset ⟨(h r).round, by simp [Setup.gather]⟩
  | gathered r | gatherRoot r => exact hset ⟨(h r).round, by simp⟩
  | bcast r => exact hset ⟨(h r).round, by simp [Process.bcast]⟩
  | bcastRoot r _ _ hpc | received r _ _ _ _ _ hpc =>
    have hround := hrunning r (by rw [hpc]; exact trivial)
    exact hset ⟨hround, by simp [Process.update]⟩
  | barrier r hround =>
    have hle := (h r).round
    exact hset ⟨hle, fun _ => by simp [Process.barrier]; omega⟩
  | barrierLeave r hpc => exact hset ⟨(h r).round, fun _ => (h r).left (.inl hpc)⟩

theorem InLoop.reachable (h : (system setup numProcs).Reachable s) (r : Fin numProcs) :
    InLoop setup (s r) := by
  have hboth := h.invariant (fun s => Inv setup s ∧ ∀ r, InLoop setup (s r)) ?_ ?_
  · exact hboth.2 r
  · rintro s rfl
    exact ⟨Inv.reachable (.start rfl), fun r => ⟨Nat.zero_le _, nofun⟩⟩
  · rintro s a t ⟨hinv, hloop⟩ hstep
    exact ⟨hinv.step hstep, InLoop.step hloop hinv hstep⟩

theorem taken_le (h : ProcessOk setup r p) (hloop : InLoop setup p) : p.taken ≤ setup.steps := by
  have hround := hloop.round
  unfold Process.taken Setup.steps
  cases hpc : p.pc with
  | gatherWait | bcast | bcastWait =>
    have hlt := h.running (by rw [hpc]; exact trivial)
    simp only; omega
  | _ => simp only; omega

theorem taken_done (hloop : InLoop setup p) (hpc : p.pc = .done) : p.taken = setup.steps := by
  simp [Process.taken, Setup.steps, hpc, hloop.left (.inr hpc)]

/-! ## Nobody waits for ever -/

theorem length_calls (h : ProcessOk setup r p) : p.calls.length = 2 * p.round + p.pc.issued := by
  rw [h.calls, List.length_map, List.length_range]

theorem matching_of_le (hinv : Inv setup s) {q : Fin numProcs} {k : Nat}
    (hk : p.calls.length = k + 1) (hle : p.calls.length ≤ (s q).calls.length) :
    s.matching p q = some (setup.callAt q k) := by
  have hlt : k < 2 * (s q).round + (s q).pc.issued := by
    rw [← length_calls (hinv q)]
    omega
  unfold State.matching
  rw [hk, (hinv q).calls, List.getElem?_map, Nat.add_sub_cancel, List.getElem?_range hlt]
  rfl

theorem exists_rank {leader : Int} (h : InRange numProcs leader) :
    ∃ root : Fin numProcs, leader = root.val := by
  obtain ⟨hlow, hhigh⟩ := h
  refine ⟨⟨leader.toNat, by omega⟩, ?_⟩
  simp only
  omega

theorem can_step (hinv : Inv setup s) (hloop : InLoop setup (s r)) (hr : (s r).pc ≠ .done)
    (hleast : ∀ q, (s r).calls.length ≤ (s q).calls.length) :
    ∃ a p, Step setup s a (s.set r p) := by
  have hlength := length_calls (hinv r)
  have hleader := (hinv r).leader
  cases hpc : (s r).pc with
  | gather =>
    by_cases hround : (s r).round < setup.numRounds
    · exact ⟨_, _, .gather r hround hpc⟩
    · exact ⟨_, _, .barrier r hround hpc⟩
  | gatherWait =>
    have hround := (hinv r).running (by rw [hpc]; exact trivial)
    by_cases hroot : (s r).leader = r.val
    · refine ⟨_, _, .gatherRoot r (fun q => setup.tosend q (s r).round) hroot hpc fun q => ?_⟩
      rw [hpc] at hlength
      rw [matching_of_le hinv hlength (hleast q), callAt_gather q hround, hleader]
    · exact ⟨_, _, .gathered r hroot hpc⟩
  | bcast winner => exact ⟨_, _, .bcast r winner hpc⟩
  | bcastWait mine =>
    have hround := (hinv r).running (by rw [hpc]; exact trivial)
    have hholds := (hinv r).holds
    rw [hpc, ← hleader] at hholds
    by_cases hroot : (s r).leader = r.val
    · obtain rfl : mine = _ := by simpa [Pc.holds, hroot] using hholds
      exact ⟨_, _, .bcastRoot r _ hroot hpc⟩
    · have hrange : InRange numProcs (s r).leader := by
        rw [hleader]
        exact leaderAt_inRange r.pos (s r).round
      obtain ⟨root, hroot'⟩ := exists_rank hrange
      rw [hpc] at hlength
      refine ⟨_, _, .received r root mine (setup.winnerAt numProcs (s r).round) hroot hroot' hpc ?_⟩
      rw [matching_of_le hinv hlength (hleast root), callAt_bcast root hround, ← hleader,
        if_pos hroot']
  | barrierWait =>
    rw [hpc] at hlength
    refine ⟨_, _, .barrierLeave r hpc fun q => ?_⟩
    rw [matching_of_le hinv hlength (hleast q), callAt_barrier]
    rw [hloop.left (.inl hpc)]
    exact Nat.lt_irrefl _
  | done => exact absurd hpc hr

theorem length_calls_le (h : ProcessOk setup r p) (hloop : InLoop setup p) :
    p.calls.length ≤ 2 * setup.numRounds + 1 := by
  have hround := hloop.round
  rw [length_calls h]
  cases hpc : p.pc with
  | gatherWait | bcast | bcastWait =>
    have hlt := h.running (by rw [hpc]; exact trivial)
    simp only [Pc.issued]; omega
  | _ => simp only [Pc.issued]; omega

theorem exists_least (h : (system setup numProcs).Reachable s) (hmore : ∃ r, (s r).pc ≠ .done) :
    ∃ r, (s r).pc ≠ .done ∧ ∀ q, (s r).calls.length ≤ (s q).calls.length := by
  obtain ⟨r, hr, hleast⟩ := exists_minimalFor_of_wellFoundedLT (fun r => (s r).pc ≠ .done)
    (fun r => (s r).calls.length) hmore
  refine ⟨r, hr, fun q => ?_⟩
  have hinv := Inv.reachable h
  have hloop := InLoop.reachable h
  by_cases hq : (s q).pc = .done
  · have hle := length_calls_le (hinv r) (hloop r)
    rw [length_calls (hinv q), (hloop q).left (.inr hq), hq]
    exact hle
  · exact (Nat.le_total _ _).elim id (hleast hq)

theorem sum_taken_initial {as : List Action}
    (h : (system setup numProcs).Run (initial numProcs) as s) :
    ∑ r, (s r).taken = as.length := by
  rw [sum_taken h]
  simp [initial, Process.taken]

theorem length_le {as : List Action} (h : (system setup numProcs).Run (initial numProcs) as s) :
    as.length ≤ numProcs * setup.steps := by
  have hreachable := System.Reachable.run (.start rfl) h
  have hle := Finset.sum_le_card_nsmul Finset.univ (fun r => (s r).taken) setup.steps fun r _ =>
    taken_le (Inv.reachable hreachable r) (InLoop.reachable hreachable r)
  rw [sum_taken_initial h] at hle
  simpa using hle

/-- No run comes to a halt before every process has made all rounds, even if a call keeps everyone
until all have come, and all runs take as many steps. In the end all know the same winners. -/
theorem guess_completes {as : List Action}
    (h : (system setup numProcs).Run (initial numProcs) as s) :
    (as.length = numProcs * setup.steps ∧ ∀ r, (s r).pc = .done ∧
      (s r).winners = (List.range setup.numRounds).map (setup.winnerAt numProcs)) ∨
    (as.length < numProcs * setup.steps ∧ ∃ r a p, Step setup s a (s.set r p) ∧
      ∀ q, (s r).calls.length ≤ (s q).calls.length) := by
  have hreachable := System.Reachable.run (.start rfl) h
  have hinv := Inv.reachable hreachable
  have hloop := InLoop.reachable hreachable
  by_cases hdone : ∀ r, (s r).pc = .done
  · left
    refine ⟨?_, fun r => ⟨hdone r, ?_⟩⟩
    · rw [← sum_taken_initial h,
        Finset.sum_congr rfl fun r _ => taken_done (hloop r) (hdone r)]
      simp
    · rw [(hinv r).winners, (hloop r).left (.inr (hdone r))]
  · right
    push Not at hdone
    obtain ⟨r, hr, hleast⟩ := exists_least hreachable hdone
    obtain ⟨a, p, hstep⟩ := can_step hinv (hloop r) hr hleast
    have hlonger := length_le (h.append (.single hstep))
    rw [List.length_append, List.length_singleton] at hlonger
    exact ⟨hlonger, r, a, p, hstep, hleast⟩

theorem guess_completes_two : ∃ s : State 2, (s 0).pc = .gatherWait ∧
    ∃ r a p, Step twoProcesses s a (s.set r p) ∧ ∀ q, (s r).calls.length ≤ (s q).calls.length := by
  have hrun : (system twoProcesses 2).Run (initial 2) [.gather] _ :=
    .single (.gather 0 (by decide) rfl)
  exact ⟨_, rfl, ((guess_completes hrun).resolve_left fun hend => absurd hend.1 (by decide)).2⟩

end Nsds.Guess
