import Mathlib.Algebra.BigOperators.Fin
import Nsds.Mpi.Guess.Code

/-!
# The same calls everywhere

The calls that a process issues are a function of how far it is: they name the leader
that the winners of the rounds before make, whoever has got how far ahead.
-/

namespace Nsds.Guess

open Transition

/-! ## The winner of a round -/

theorem foldl_winner (numberToGuess : Int) (buffer : List Tuple) (search : Search) :
    (buffer.foldl (Search.turn numberToGuess) search).winner = search.winner ∨
      ∃ guess ∈ buffer, guess.source =
        (buffer.foldl (Search.turn numberToGuess) search).winner := by
  induction buffer generalizing search with
  | nil => exact Or.inl rfl
  | cons guess buffer ih =>
    rw [List.foldl_cons]
    rcases ih (search.turn numberToGuess guess) with h | ⟨guess', hmem, h⟩
    · rw [h]
      unfold Search.turn
      dsimp only
      split
      · exact Or.inr ⟨guess, List.mem_cons_self, rfl⟩
      · split <;> exact Or.inl rfl
    · exact Or.inr ⟨guess', List.mem_cons_of_mem _ hmem, h⟩

theorem computeWinner_source (numberToGuess : Int) (buffer : List Tuple) :
    computeWinner numberToGuess buffer = -1 ∨
      ∃ guess ∈ buffer, guess.source = computeWinner numberToGuess buffer := by
  unfold computeWinner
  dsimp only
  split
  · exact Or.inl rfl
  · exact foldl_winner numberToGuess buffer _

variable (numProcs : Nat) (setup : Setup)

/-- The winner that `leader` finds in a round. -/
def Setup.winnerBy (leader : Int) (round : Nat) : Int :=
  computeWinner (selectNumber (setup.rand leader.toNat round).2)
    ((List.finRange numProcs).map fun q => setup.tosend q round)

/-- The leader before a round. -/
def Setup.leaderAt : Nat → Int
  | 0 => 0
  | round + 1 => updateLeader (leaderAt round) (setup.winnerBy numProcs (leaderAt round) round)

/-- The winner of a round. -/
def Setup.winnerAt (round : Nat) : Int :=
  setup.winnerBy numProcs (setup.leaderAt numProcs round) round

/-- The last winner of a list, 0 if there is none. -/
def mostRecent (winners : List Int) : Int := (winners.filter (· ≠ -1)).getLast?.getD 0

variable {numProcs} {setup}

theorem mostRecent_append (winners : List Int) (winner : Int) :
    mostRecent (winners ++ [winner]) = updateLeader (mostRecent winners) winner := by
  unfold mostRecent updateLeader
  rw [List.filter_append]
  split
  · rename_i h
    simp [h]
  · rename_i h
    simp [not_not.mp h]

theorem leaderAt_eq (round : Nat) :
    setup.leaderAt numProcs round =
      mostRecent ((List.range round).map (setup.winnerAt numProcs)) := by
  induction round with
  | zero => rfl
  | succ round ih =>
    rw [List.range_succ, List.map_append, List.map_singleton, mostRecent_append, ← ih]
    rfl

/-- A process number, or -1 for no winner. -/
def InRange (numProcs : Nat) (winner : Int) : Prop := 0 ≤ winner ∧ winner < numProcs

theorem winnerAt_inRange (round : Nat) :
    setup.winnerAt numProcs round = -1 ∨ InRange numProcs (setup.winnerAt numProcs round) := by
  rcases computeWinner_source _ ((List.finRange numProcs).map fun q => setup.tosend q round)
    with h | ⟨guess, hmem, h⟩
  · exact Or.inl h
  · obtain ⟨q, -, rfl⟩ := List.mem_map.mp hmem
    have hq := q.isLt
    change (q.val : Int) = setup.winnerAt numProcs round at h
    right
    unfold InRange
    omega

theorem leaderAt_inRange (hpos : 0 < numProcs) (round : Nat) :
    InRange numProcs (setup.leaderAt numProcs round) := by
  induction round with
  | zero =>
    unfold Setup.leaderAt InRange
    omega
  | succ round ih =>
    change InRange numProcs (updateLeader _ (setup.winnerAt numProcs round))
    unfold updateLeader
    split
    · rename_i h
      exact (winnerAt_inRange round).resolve_left h
    · exact ih

/-! ## The leaderboard -/

theorem updateLeaderboard_apply (leaderboard : Leaderboard) (winner : Int) {i : Int} (hi : i ≠ -1) :
    updateLeaderboard leaderboard winner i =
      leaderboard i + if winner = i then 1 else 0 := by
  unfold updateLeaderboard
  rcases eq_or_ne i winner with rfl | hne
  · rw [if_pos hi, Function.update_self, if_pos rfl]
  · rw [if_neg hne.symm]
    split
    · rw [Function.update_of_ne hne]
      rfl
    · rfl

theorem sum_count {winners : List Int} (h : ∀ w ∈ winners, w = -1 ∨ InRange numProcs w) :
    ∑ p : Fin numProcs, winners.count (p.val : Int) = winners.countP (· ≠ -1) := by
  induction winners with
  | nil => simp
  | cons w winners ih =>
    have ih := ih fun w' hw' => h w' (List.mem_cons_of_mem _ hw')
    simp only [List.count_cons, Finset.sum_add_distrib, ih, List.countP_cons]
    congr 1
    rcases h w List.mem_cons_self with rfl | ⟨hlow, hhigh⟩
    · rw [Finset.sum_eq_zero]
      · rfl
      · intro p _
        rw [if_neg]
        simp only [beq_iff_eq]
        omega
    · obtain ⟨k, rfl⟩ := Int.eq_ofNat_of_zero_le hlow
      rw [Finset.sum_eq_single ⟨k, by omega⟩]
      · simp
      · intro p _ hp
        rw [if_neg]
        simp only [beq_iff_eq]
        intro heq
        exact hp (Fin.ext (by simp only; omega))
      · simp

/-! ## The calls -/

/-- How many calls of the round a process has issued. -/
def Pc.issued : Pc → Nat
  | .gather => 0
  | .gatherWait | .bcast _ | .barrierWait | .done => 1
  | .bcastWait _ => 2

def Pc.inRound : Pc → Prop
  | .gatherWait | .bcast _ | .bcastWait _ => True
  | .gather | .barrierWait | .done => False

def Pc.holds (expected : Option Int) : Pc → Prop
  | .bcast winner | .bcastWait winner => winner = expected
  | _ => True

/-- Call number `k` of process `r`. -/
def Setup.callAt (setup : Setup) (r : Fin numProcs) (k : Nat) : Call :=
  let leader := setup.leaderAt numProcs (k / 2)
  if k / 2 < setup.numRounds then
    if k % 2 = 0 then .gather leader (setup.tosend r (k / 2))
    else .bcast leader (if leader = r.val then some (setup.winnerAt numProcs (k / 2)) else none)
  else .barrier

theorem callAt_gather (r : Fin numProcs) {round : Nat} (h : round < setup.numRounds) :
    setup.callAt r (2 * round) =
      .gather (setup.leaderAt numProcs round) (setup.tosend r round) := by
  unfold Setup.callAt
  dsimp only
  rw [Nat.mul_div_cancel_left round Nat.two_pos, if_pos h, if_pos (by omega)]

theorem callAt_bcast (r : Fin numProcs) {round : Nat} (h : round < setup.numRounds) :
    setup.callAt r (2 * round + 1) = .bcast (setup.leaderAt numProcs round)
      (if setup.leaderAt numProcs round = r.val then some (setup.winnerAt numProcs round)
        else none) := by
  have hdiv : (2 * round + 1) / 2 = round := by omega
  unfold Setup.callAt
  dsimp only
  rw [hdiv, if_pos h, if_neg (by omega)]

theorem callAt_barrier (r : Fin numProcs) {round : Nat} (h : ¬ round < setup.numRounds) :
    setup.callAt r (2 * round) = .barrier := by
  unfold Setup.callAt
  dsimp only
  rw [Nat.mul_div_cancel_left round Nat.two_pos, if_neg h]

theorem callAt_agree (r q : Fin numProcs) (k : Nat) :
    (setup.callAt r k).op = (setup.callAt q k).op ∧
      (setup.callAt r k).root = (setup.callAt q k).root := by
  unfold Setup.callAt
  dsimp only
  split
  · split <;> exact ⟨rfl, rfl⟩
  · exact ⟨rfl, rfl⟩

theorem callAt_root (r : Fin numProcs) (k : Nat) {root : Int}
    (h : (setup.callAt r k).root = some root) : InRange numProcs root := by
  have hleader : InRange numProcs (setup.leaderAt numProcs (k / 2)) :=
    leaderAt_inRange r.pos (k / 2)
  unfold Setup.callAt at h
  dsimp only at h
  split at h
  · split at h <;> cases h <;> exact hleader
  · cases h

/-! ## The invariant -/

/-- The entries of the leaderboard after the first `rounds` rounds. -/
def Setup.board (setup : Setup) (numProcs rounds : Nat) (i : Int) : Nat :=
  ((List.range rounds).map (setup.winnerAt numProcs)).count i

/-- What a process is at its place, whatever the others do. -/
structure ProcessOk (setup : Setup) (r : Fin numProcs) (p : Process) : Prop where
  running : p.pc.inRound → p.round < setup.numRounds
  leader : p.leader = setup.leaderAt numProcs p.round
  holds : p.pc.holds (if setup.leaderAt numProcs p.round = r.val then
    some (setup.winnerAt numProcs p.round) else none)
  calls : p.calls = (List.range (2 * p.round + p.pc.issued)).map (setup.callAt r)
  winners : p.winners = (List.range p.round).map (setup.winnerAt numProcs)
  leaderboard : r.val = 0 → ∀ i, i ≠ -1 → p.leaderboard i = setup.board numProcs p.round i
  printed : r.val = 0 → p.printed = (List.range p.round).map fun round =>
    (round, setup.winnerAt numProcs round,
      (List.range numProcs).map fun i : Nat => setup.board numProcs (round + 1) i)

/-- Every process is where its round says. -/
def Inv (setup : Setup) (s : State numProcs) : Prop := ∀ r, ProcessOk setup r (s r)

variable {s t : State numProcs} {r q : Fin numProcs} {p : Process} {a : Action}

theorem Inv.set (h : Inv setup s) (hp : ProcessOk setup r p) : Inv setup (s.set r p) := by
  intro q
  unfold State.set
  rcases eq_or_ne q r with rfl | hq
  · rw [Function.update_self]
    exact hp
  · rw [Function.update_of_ne hq]
    exact h q

theorem ProcessOk.issue (h : ProcessOk setup r p) {pc : Pc} {calls : List Call}
    (hrun : pc.inRound → p.round < setup.numRounds)
    (hholds : pc.holds (if setup.leaderAt numProcs p.round = r.val then
      some (setup.winnerAt numProcs p.round) else none))
    (hcalls : calls = (List.range (2 * p.round + pc.issued)).map (setup.callAt r)) :
    ProcessOk setup r { p with pc := pc, calls := calls } :=
  ⟨hrun, h.leader, hholds, hcalls, h.winners, h.leaderboard, h.printed⟩

theorem ProcessOk.callAt (h : ProcessOk setup r p) {k : Nat} {c : Call}
    (hc : p.calls[k]? = some c) : c = setup.callAt r k := by
  rw [h.calls, List.getElem?_map] at hc
  obtain ⟨k', hk, rfl⟩ := Option.map_eq_some_iff.mp hc
  obtain ⟨hlt, heq⟩ := List.getElem?_eq_some_iff.mp hk
  rw [List.getElem_range] at heq
  rw [heq]

theorem ProcessOk.matching (hall : Inv setup s) (h : ProcessOk setup r p) {c : Call}
    (hc : s.matching p q = some c) :
    c = setup.callAt q (2 * p.round + p.pc.issued - 1) := by
  have hlength : p.calls.length = 2 * p.round + p.pc.issued := by
    rw [h.calls, List.length_map, List.length_range]
  unfold State.matching at hc
  rw [hlength] at hc
  exact (hall q).callAt hc

theorem range_issued (round issued : Nat) :
    (List.range (2 * round + issued)).map (setup.callAt r) ++
      [setup.callAt r (2 * round + issued)] =
        (List.range (2 * round + (issued + 1))).map (setup.callAt r) := by
  rw [← Nat.add_assoc, List.range_succ, List.map_append]
  rfl

theorem ProcessOk.gather (h : ProcessOk setup r p) (hround : p.round < setup.numRounds)
    (hpc : p.pc = .gather) : ProcessOk setup r (setup.gather r p) := by
  refine h.issue ?_ ?_ ?_
  · exact fun _ => hround
  · exact trivial
  · rw [h.calls, hpc, h.leader, ← callAt_gather r hround]
    exact range_issued p.round 0

theorem ProcessOk.bcast (h : ProcessOk setup r p) {winner : Option Int}
    (hpc : p.pc = .bcast winner) : ProcessOk setup r (p.bcast winner) := by
  have hround := h.running (by rw [hpc]; exact trivial)
  have hholds := h.holds
  rw [hpc] at hholds
  change winner = _ at hholds
  refine h.issue ?_ ?_ ?_
  · exact fun _ => hround
  · exact hholds
  · rw [h.calls, hpc, h.leader, hholds, ← callAt_bcast r hround]
    exact range_issued p.round 1

theorem ProcessOk.barrier (h : ProcessOk setup r p) (hround : ¬ p.round < setup.numRounds)
    (hpc : p.pc = .gather) : ProcessOk setup r p.barrier := by
  refine h.issue ?_ ?_ ?_
  · exact False.elim
  · exact trivial
  · rw [h.calls, hpc, ← callAt_barrier r hround]
    exact range_issued p.round 0

theorem board_succ (rounds : Nat) (i : Int) :
    setup.board numProcs (rounds + 1) i = setup.board numProcs rounds i +
      if setup.winnerAt numProcs rounds = i then 1 else 0 := by
  unfold Setup.board
  rw [List.range_succ, List.map_append, List.count_append, List.map_singleton,
    List.count_singleton]
  simp only [beq_iff_eq]

theorem ProcessOk.update (h : ProcessOk setup r p) {mine : Option Int}
    (hpc : p.pc = .bcastWait mine) {winner : Int}
    (hwinner : winner = setup.winnerAt numProcs p.round) :
    ProcessOk setup r (p.update r winner) := by
  have hboard : r.val = 0 → ∀ i, i ≠ -1 → updateLeaderboard p.leaderboard winner i =
      setup.board numProcs (p.round + 1) i := by
    intro hr i hi
    rw [updateLeaderboard_apply _ _ hi, h.leaderboard hr i hi, board_succ, hwinner]
  unfold Process.update
  refine ⟨False.elim, ?_, trivial, ?_, ?_, ?_, ?_⟩
  · rw [h.leader, hwinner]
    rfl
  · dsimp only
    rw [h.calls, hpc]
    rfl
  · dsimp only
    rw [h.winners, hwinner, List.range_succ, List.map_append]
    rfl
  · intro hr
    dsimp only
    rw [if_pos hr]
    exact hboard hr
  · intro hr
    dsimp only
    rw [if_pos hr, h.printed hr, List.range_succ, List.map_append, List.map_singleton, ← hwinner]
    congr 4
    apply List.map_congr_left
    exact fun i _ => hboard hr i (by omega)

theorem Inv.step (h : Inv setup s) (hstep : Step setup s a t) : Inv setup t := by
  cases hstep with
  | gather r hround hpc => exact h.set ((h r).gather hround hpc)
  | gathered r hr hpc =>
    have hround := (h r).running (by rw [hpc]; exact trivial)
    apply h.set
    refine (h r).issue ?_ ?_ ?_
    · exact fun _ => hround
    · rw [← (h r).leader, if_neg hr]
      rfl
    · rw [(h r).calls, hpc]
      rfl
  | gatherRoot r buffer hr hpc hall =>
    have hround := (h r).running (by rw [hpc]; exact trivial)
    have hleader := (h r).leader
    rw [hr] at hleader
    have hbuffer : ∀ q, buffer q = setup.tosend q (s r).round := by
      intro q
      have hcall := ProcessOk.matching h (h r) (hall q)
      rw [hpc] at hcall
      change _ = setup.callAt q (2 * (s r).round) at hcall
      rw [callAt_gather q hround] at hcall
      exact (Call.gather.inj hcall).2
    apply h.set
    refine (h r).issue ?_ ?_ ?_
    · exact fun _ => hround
    · rw [if_pos hleader.symm]
      unfold Setup.winnerAt Setup.winnerBy
      rw [← hleader, List.map_congr_left fun q _ => hbuffer q]
      rfl
    · rw [(h r).calls, hpc]
      rfl
  | bcast r winner hpc => exact h.set ((h r).bcast hpc)
  | bcastRoot r winner hr hpc =>
    have hholds := (h r).holds
    rw [hpc, ← (h r).leader, if_pos hr] at hholds
    exact h.set ((h r).update hpc (Option.some.inj hholds))
  | received r root mine winner hr hroot hpc hsent =>
    have hround := (h r).running (by rw [hpc]; exact trivial)
    have hcall := ProcessOk.matching h (h r) hsent
    rw [hpc] at hcall
    change _ = setup.callAt root (2 * (s r).round + 1) at hcall
    rw [callAt_bcast root hround, ← (h r).leader, if_pos hroot] at hcall
    exact h.set ((h r).update hpc (Option.some.inj (Call.bcast.inj hcall).2))
  | barrier r hround hpc => exact h.set ((h r).barrier hround hpc)
  | barrierLeave r hpc hall =>
    apply h.set
    refine (h r).issue ?_ ?_ ?_
    · exact False.elim
    · exact trivial
    · rw [(h r).calls, hpc]
      rfl

theorem Inv.reachable (h : (system setup numProcs).Reachable s) : Inv setup s := by
  apply h.invariant (Inv setup)
  · rintro s rfl r
    exact ⟨False.elim, rfl, trivial, rfl, rfl, fun _ _ _ => rfl, fun _ => rfl⟩
  · exact fun s a t hs hstep => hs.step hstep

/-- In any order of the steps: calls of one number name the same operation and the same
root, which is a process; in a round, the leader is the most recent winner, and who has
won which round is the same everywhere; and the leaderboard of process 0 counts the
rounds that each process has won. -/
theorem leader_agreement (setup : Setup) (s : State numProcs)
    (h : (system setup numProcs).Reachable s) :
    (∀ (r q : Fin numProcs) (k : Nat) (c d : Call),
      (s r).calls[k]? = some c → (s q).calls[k]? = some d → c.op = d.op ∧ c.root = d.root) ∧
    (∀ (r : Fin numProcs), ∀ c ∈ (s r).calls, ∀ root,
      c.root = some root → 0 ≤ root ∧ root < numProcs) ∧
    (∀ r, (s r).winners = (List.range (s r).round).map (setup.winnerAt numProcs)) ∧
    (∀ r, (s r).leader = mostRecent (s r).winners) ∧
    ∀ r, r.val = 0 →
      (∀ p : Fin numProcs, (s r).leaderboard p.val = (s r).winners.count (p.val : Int)) ∧
      ∑ p : Fin numProcs, (s r).leaderboard p.val = (s r).winners.countP (· ≠ -1) := by
  have hinv := Inv.reachable h
  have hboard : ∀ r, r.val = 0 → ∀ p : Fin numProcs,
      (s r).leaderboard p.val = (s r).winners.count (p.val : Int) := by
    intro r hr p
    rw [(hinv r).leaderboard hr p.val (by omega), (hinv r).winners]
    rfl
  refine ⟨?_, ?_, fun r => (hinv r).winners, ?_, fun r hr => ⟨hboard r hr, ?_⟩⟩
  · intro r q k c d hc hd
    rw [(hinv r).callAt hc, (hinv q).callAt hd]
    exact callAt_agree r q k
  · intro r c hc root hroot
    obtain ⟨k, hk⟩ := List.getElem?_of_mem hc
    rw [(hinv r).callAt hk] at hroot
    exact callAt_root r k hroot
  · intro r
    rw [(hinv r).leader, (hinv r).winners, leaderAt_eq]
  · rw [Finset.sum_congr rfl fun p _ => hboard r hr p]
    apply sum_count
    intro w hw
    rw [(hinv r).winners] at hw
    obtain ⟨round, -, rfl⟩ := List.mem_map.mp hw
    exact winnerAt_inRange round

/-- Process 0 leads and selects 5, process 1 selects 10, and 10 is to be guessed. -/
def twoProcesses : Setup where
  numRounds := 3
  rand r _ := if r = 0 then (4, 9) else (9, 0)

theorem leader_agreement_two :
    ∃ s : State 2, (system twoProcesses 2).Reachable s ∧ (s 0).round = 1 ∧ (s 1).round = 0 ∧
      (s 0).leader = 1 ∧ ∑ p : Fin 2, (s 0).leaderboard p.val = 1 := by
  have h0 : (system twoProcesses 2).Reachable (initial 2) := .start rfl
  have h1 := h0.step (Step.gather 1 (by decide) rfl)
  have h2 := h1.step (Step.gathered 1 (by decide) rfl)
  have h3 := h2.step (Step.gather 0 (by decide) rfl)
  have h4 := h3.step (Step.gatherRoot 0 (fun q => twoProcesses.tosend q 0) rfl rfl (by
    intro q
    match q with
    | 0 => rfl
    | 1 => rfl))
  have h5 := h4.step (Step.bcast 0 _ rfl)
  have h6 := h5.step (Step.bcastRoot 0 _ rfl rfl)
  exact ⟨_, h6, rfl, rfl, rfl, ((leader_agreement twoProcesses _ h6).2.2.2.2 0 rfl).2⟩

end Nsds.Guess
