import Nsds.Lib.Pairs
import Nsds.Mpi.CharCount.Proofs

/-!
# What `char_count.c` prints

Every run ends, and then every letter is printed by one rank, with its count over all files
if that is an `int`.
-/

namespace Nsds.CharCount

open Pairs Transition

variable {worldSize : Nat} {files : Fin worldSize → File} {s t : State worldSize}

/-! ## Every run ends -/

/-- How much a rank still has to do: `world_size` for each letter, less what it has received of
the one it is at. -/
def Rank.left (worldSize : Nat) (rank : Rank) : Nat :=
  (numLetters - rank.i) * worldSize - rank.p

/-- What all ranks still have to do. -/
def State.left (s : State worldSize) : Nat := ∑ r, (s.ranks r).left worldSize

theorem Rank.left_eq {rank : Rank} (hi : rank.i < numLetters) :
    rank.left worldSize = (numLetters - (rank.i + 1)) * worldSize + worldSize - rank.p := by
  have hletters : numLetters - rank.i = (numLetters - (rank.i + 1)) + 1 := by omega
  unfold Rank.left
  rw [hletters, Nat.succ_mul]

theorem Rank.left_lt_of_next {rank rank' : Rank} (hi : rank.i < numLetters)
    (hp : rank.p < worldSize) (hnext : rank'.i = rank.i + 1) :
    rank'.left worldSize < rank.left worldSize := by
  rw [left_eq hi]
  unfold Rank.left
  rw [hnext]
  omega

theorem Rank.left_lt_of_recv {rank rank' : Rank} (hi : rank.i < numLetters)
    (hp : rank.p < worldSize) (hsame : rank'.i = rank.i) (hrecv : rank'.p = rank.p + 1) :
    rank'.left worldSize < rank.left worldSize := by
  rw [left_eq hi, left_eq (hsame ▸ hi), hsame, hrecv]
  omega

theorem Step.rank {a : Action worldSize} (h : Step s a t) (hp : ∀ r, (s.ranks r).p < worldSize) :
    ∃ r rank, t.ranks = Function.update s.ranks r rank ∧ rank.p < worldSize ∧
      rank.left worldSize < (s.ranks r).left worldSize := by
  cases h with
  | isend r i hi hr =>
    have hlt : (s.ranks r).i < numLetters := hi ▸ i.isLt
    exact ⟨r, _, isend_ranks s r i, hp r, Rank.left_lt_of_next hlt (hp r) (by rw [hi])⟩
  | recv r source i hi hr hmore recBuffer rest hm =>
    have hlt : (s.ranks r).i < numLetters := hi ▸ i.isLt
    exact ⟨r, _, recv_ranks s r source i recBuffer rest, Nat.add_lt_of_lt_sub hmore,
      Rank.left_lt_of_recv hlt (hp r) rfl rfl⟩
  | next r i hi hr hdone =>
    have hlt : (s.ranks r).i < numLetters := hi ▸ i.isLt
    exact ⟨r, _, next_ranks s r i, r.pos, Rank.left_lt_of_next hlt (hp r) (by rw [hi])⟩

theorem p_lt (h : (system files).Reachable s) (r : Fin worldSize) : (s.ranks r).p < worldSize := by
  revert r
  refine h.invariant (fun s => ∀ r, (s.ranks r).p < worldSize) ?_ ?_
  · rintro s rfl r
    exact r.pos
  · intro s a t hs hstep q
    obtain ⟨r, rank, hranks, hp, -⟩ := Step.rank hstep hs
    rw [hranks]
    rcases eq_or_ne q r with rfl | hq
    · rwa [Function.update_self]
    · rw [Function.update_of_ne hq]
      exact hs q

theorem left_lt {a : Action worldSize} (h : (system files).Reachable s) (hstep : Step s a t) :
    t.left < s.left := by
  obtain ⟨r, rank, hranks, -, hless⟩ := hstep.rank (p_lt h)
  unfold State.left
  rw [hranks]
  refine Finset.sum_lt_sum (fun q _ => ?_) ⟨r, Finset.mem_univ r, ?_⟩
  · rcases eq_or_ne q r with rfl | hq
    · rw [Function.update_self]
      exact Nat.le_of_lt hless
    · rw [Function.update_of_ne hq]
  · rwa [Function.update_self]

theorem run_ends {run : Nat → State worldSize} (h : run 0 = initial files) :
    ∃ n, ∀ a, ¬ Step (run n) a (run (n + 1)) :=
  System.Reachable.ends Nat.lt_wfRel.wf State.left (fun _ _ _ => left_lt)
    (.start h : (system files).Reachable (run 0))

theorem exists_stuck (h : (system files).Reachable s) :
    ∃ t, (system files).Reachable t ∧ (system files).Stuck t := by
  induction hn : s.left using Nat.strong_induction_on generalizing s with
  | _ n ih =>
    by_cases hstuck : (system files).Stuck s
    · exact ⟨s, h, hstuck⟩
    · simp only [System.Stuck, not_forall, not_not] at hstuck
      obtain ⟨a, t, hstep⟩ := hstuck
      exact ih _ (hn ▸ left_lt h hstep) (h.step hstep) rfl

/-! ## The output -/

/-- Between them the ranks print every letter once, with its count over all files. -/
def PrintedOnce (files : Fin worldSize → File) (s : State worldSize) : Prop :=
  ((List.finRange worldSize).flatMap fun r => printed r (s.ranks r)).Perm
    ((List.finRange numLetters).map fun i => (letter i, (total files i : Int)))

theorem printed_of_finished (h : (system files).Reachable s) (hf : s.allFinished)
    (hfits : ∀ i, total files i < 2 ^ 31) (r : Fin worldSize) :
    printed r (s.ranks r) =
      ((List.finRange numLetters).filter fun i : Fin numLetters => receiver r i = r).map
        fun i => (letter i, (total files i : Int)) := by
  apply List.map_congr_left
  intro i hi
  have hown : receiver r i = r := by simpa using hi
  rw [count_eq_total h hf hown (hfits i)]

theorem printedOnce (h : (system files).Reachable s) (hf : s.allFinished) (hpos : 0 < worldSize)
    (hfits : ∀ i, total files i < 2 ^ 31) : PrintedOnce files s := by
  have hletters : ((List.finRange worldSize).flatMap fun r => (List.finRange numLetters).filter
      fun i : Fin numLetters => receiver ⟨0, hpos⟩ i = r).Perm (List.finRange numLetters) :=
    flatMap_filter_perm (List.nodup_finRange _) (List.nodup_finRange _)
      fun i _ => List.mem_finRange _
  have hprinted (r : Fin worldSize) := printed_of_finished h hf hfits r
  unfold PrintedOnce
  simp only [hprinted]
  rw [← List.map_flatMap]
  exact hletters.map _

/-- The exchange never gets stuck, and it ends. A pair is only ever received at its own letter.
At the end no pair is left, and the owner of a letter has its count over all files, if that is an
`int`; so was every count on the way. -/
theorem exchange_correct (files : Fin worldSize → File) (hpos : 0 < worldSize) :
    (∀ s, (system files).Reachable s → ¬ s.allFinished → ¬ (system files).Stuck s) ∧
    (∀ run : Nat → State worldSize, run 0 = initial files →
      ∃ n, ∀ a, ¬ Step (run n) a (run (n + 1))) ∧
    (∀ s, (system files).Reachable s → ∀ (r source : Fin worldSize) (i : Fin numLetters),
      (s.ranks r).i = i → receiver r i = r → ∀ m ∈ s.pending source r, m.c = letter i) ∧
    (∀ s, (system files).Reachable s → ∀ (r : Fin worldSize) (i : Fin numLetters),
      total files i < 2 ^ 31 → 0 ≤ ((s.ranks r).localCount i).count ∧
        ((s.ranks r).localCount i).count ≤ total files i) ∧
    (∀ s, (system files).Reachable s → s.allFinished →
      (∀ q o, s.pending q o = []) ∧
      (∀ (o : Fin worldSize) (i : Fin numLetters), receiver o i = o → total files i < 2 ^ 31 →
        (s.ranks o).localCount i = ⟨letter i, total files i⟩) ∧
      ((∀ i, total files i < 2 ^ 31) → PrintedOnce files s)) := by
  refine ⟨?_, fun run => run_ends, ?_, fun s hs => count_le_total hs, ?_⟩
  · intro s hs hf hstuck
    exact hf (allFinished_of_stuck hs hstuck)
  · intro s hs r source i hi hr m hm
    exact (reachable_inv hs).char_of_pending hi hr hm
  · intro s hs hf
    refine ⟨fun q o => ((reachable_inv hs).finished_outstanding hf o).1 q, ?_, ?_⟩
    · intro o i ho hfits
      exact count_eq_total hs hf ho hfits
    · exact printedOnce hs hf hpos

def letterA : Lower := ⟨'a', by decide⟩

def twoFiles : Fin 2 → File := fun _ => [letterA]

theorem total_twoFiles (i : Fin numLetters) : total twoFiles i ≤ 2 := by
  revert i
  decide

theorem exchange_correct_two : ∃ s, (system twoFiles).Reachable s ∧ s.allFinished ∧
    (s.ranks 0).localCount (cIndex letterA) = ⟨'a', 2⟩ ∧ PrintedOnce twoFiles s := by
  obtain ⟨hstuck, -, -, -, hend⟩ := exchange_correct twoFiles (by decide)
  obtain ⟨s, hs, hlast⟩ := exists_stuck (.start rfl : (system twoFiles).Reachable _)
  have hf : s.allFinished := by
    by_contra hf
    exact hstuck s hs hf hlast
  have hfits (i : Fin numLetters) : total twoFiles i < 2 ^ 31 :=
    Nat.lt_of_le_of_lt (total_twoFiles i) (by decide)
  obtain ⟨-, hcount, hprinted⟩ := hend s hs hf
  exact ⟨s, hs, hf, hcount 0 _ rfl (hfits _), hprinted hfits⟩

/-! ## A count that is no `int` -/

def manyLetters : Fin 1 → File := fun _ => List.replicate (2 ^ 31) letterA

theorem total_manyLetters : total manyLetters (cIndex letterA) = 2 ^ 31 := by
  have hcount : occurrences (manyLetters 0) (cIndex letterA) = 2 ^ 31 := by
    unfold occurrences manyLetters
    rw [List.map_replicate]
    exact List.count_replicate_self
  rw [total, Fin.sum_univ_one, hcount]

/-- No `int` is the number of these letters. -/
theorem letters_miscounted : ∃ s, (system manyLetters).Reachable s ∧ s.allFinished ∧
    receiver (0 : Fin 1) (cIndex letterA) = 0 ∧
    ((s.ranks 0).localCount (cIndex letterA)).count ≠ total manyLetters (cIndex letterA) := by
  obtain ⟨s, hs, hstuck⟩ := exists_stuck (.start rfl : (system manyLetters).Reachable _)
  refine ⟨s, hs, allFinished_of_stuck hs hstuck, rfl, ?_⟩
  have hint := ((reachable_inv hs).rank 0).int (cIndex letterA)
  rw [total_manyLetters]
  omega

end Nsds.CharCount
