import Nsds.Mpi.LinearRoad.Proofs

/-!
# No deadlock, and the sum that is printed

A stuck rank would wait for another one of the same iteration: for the next one to
receive, for the one before to send, or for all of them.
-/

namespace Nsds.LinearRoad

open Transition

variable {numProcs : Nat} {setup : Setup numProcs} {s : State numProcs}

theorem Inv.start : Inv setup (initial numProcs) where
  rank r := by
    refine ⟨fun hpc => absurd rfl hpc, ?_, fun _ _ => rfl, rfl, rfl⟩
    rintro (hpc | hpc) <;> cases hpc
  channel _ _ _ := ⟨Nat.le_refl _, rfl⟩
  skew _ _ := Nat.le_refl _
  printed _ _ := rfl

theorem Inv.reachable (h : (system setup).Reachable s) : Inv setup s := by
  apply h.invariant (Inv setup)
  · rintro s rfl
    exact Inv.start
  · exact fun s a t hs hstep => hs.step hstep

/-! ## Progress -/

theorem Pc.of_received {pc : Pc} (h : pc.received = 0) :
    pc = .exit ∨ (∃ n, pc = .send n) ∨ pc = .move ∨ pc = .recv := by
  cases pc <;> simp_all [Pc.received]

theorem Pc.of_sent {pc : Pc} (h : pc.sent = 0) : pc = .exit ∨ ∃ n, pc = .send n := by
  cases pc <;> simp_all [Pc.sent]

theorem Pc.sent_le (pc : Pc) : pc.sent ≤ 1 := by cases pc <;> simp [Pc.sent]

section

variable (h : Inv setup s) (hstuck : (system setup).Stuck s)

include h hstuck

theorem stuck_it (q r : Fin numProcs) : (s.ranks q).it = (s.ranks r).it := by
  have hle : ∀ q r : Fin numProcs, (s.ranks r).it ≤ (s.ranks q).it := by
    intro q r
    rcases Nat.lt_or_ge (s.ranks q).it (s.ranks r).it with hlt | hge
    · have hskew := h.skew r q
      have hbarriers := (h.rank q).barriers
      cases hpc : (s.ranks q).pc
      case barrierWait =>
        rw [hpc] at hbarriers
        change (s.ranks q).barriers = (s.ranks q).it + 1 at hbarriers
        refine absurd (Step.barrierLeave q hpc fun p => ?_) (hstuck _ _)
        have := h.skew r p
        omega
      all_goals
        rw [hpc] at hbarriers
        change (s.ranks q).barriers = (s.ranks q).it at hbarriers
        omega
    · exact hge
  exact Nat.le_antisymm (hle r q) (hle q r)

variable {it : Nat} (hit : ∀ r, (s.ranks r).it = it) (hrun : it < setup.numIterations)

include hit hrun

omit h in
theorem stuck_local (r : Fin numProcs) : (s.ranks r).pc ≠ .exit ∧ (s.ranks r).pc ≠ .move ∧
    (s.ranks r).pc ≠ .reduce ∧ (s.ranks r).pc ≠ .barrier :=
  ⟨fun hpc => hstuck _ _ (.exit r (by rw [hit]; exact hrun) hpc),
    fun hpc => hstuck _ _ (.move r hpc), fun hpc => hstuck _ _ (.reduce r hpc),
    fun hpc => hstuck _ _ (.barrier r hpc)⟩

/-- The rightmost send finds its receiver. The induction goes from right to left. -/
theorem stuck_send (k : Nat) :
    ∀ r : Fin numProcs, numProcs ≤ r.val + k → ∀ n, (s.ranks r).pc ≠ .send n := by
  induction k with
  | zero =>
    intro r hr
    have := r.isLt
    omega
  | succ k ih =>
    intro r hr n hpc
    have hsegments := (h.rank r).segments
    unfold Setup.SegmentsOk at hsegments
    rw [hpc] at hsegments
    let next : Fin numProcs := ⟨r.val + 1, hsegments.1⟩
    obtain ⟨hle, hpending⟩ := h.channel r next rfl
    have hsent : (s.ranks r).sent = it := by unfold Rank.sent; rw [hpc, hit]; rfl
    have hreceived : (s.ranks next).received = it + (s.ranks next).pc.received := by
      unfold Rank.received
      rw [hit]
    cases hb : setup.buffered r (s.ranks r).it with
    | true => exact hstuck _ _ (.sendBuffered r n hpc hb)
    | false =>
      obtain ⟨hexit, hmove, -, -⟩ := stuck_local hstuck hit hrun next
      have hzero : (s.ranks next).pc.received = 0 := by omega
      rcases Pc.of_received hzero with hnext | ⟨m, hnext⟩ | hnext | hnext
      · exact hexit hnext
      · exact ih next (by simp only [next]; omega) m hnext
      · exact hmove hnext
      · rw [hsent, hreceived, hnext] at hpending
        simp only [Pc.received, Nat.add_zero, Nat.sub_self] at hpending
        exact hstuck _ _ (.sendRendezvous r next n rfl hpc hb hnext hpending)

theorem stuck_recv (r : Fin numProcs) : (s.ranks r).pc ≠ .recv := by
  intro hpc
  rcases Nat.eq_zero_or_pos r.val with hr | hr
  · exact hstuck _ _ (.input r hr hpc)
  · let prev : Fin numProcs := ⟨r.val - 1, by omega⟩
    have hprev : r.val = prev.val + 1 := by simp only [prev]; omega
    obtain ⟨hle, hpending⟩ := h.channel prev r hprev
    have hreceived : (s.ranks r).received = it := by unfold Rank.received; rw [hpc, hit]; rfl
    have hsent : (s.ranks prev).sent = it + 1 := by
      have hle := (s.ranks prev).pc.sent_le
      rcases Nat.eq_zero_or_pos (s.ranks prev).pc.sent with hzero | hpos
      · rcases Pc.of_sent hzero with hexit | ⟨n, hsend⟩
        · exact absurd hexit (stuck_local hstuck hit hrun prev).1
        · exact absurd hsend (stuck_send h hstuck hit hrun numProcs prev (by omega) n)
      · unfold Rank.sent
        rw [hit]
        omega
    rw [hsent, hreceived, Nat.add_sub_cancel_left] at hpending
    exact hstuck _ _ (.recv prev r _ _ hprev hpc hpending)

theorem stuck_collective (r : Fin numProcs) : False := by
  have hwait : ∀ q, (s.ranks q).pc = .reduceWait ∨ (s.ranks q).pc = .barrierWait := by
    intro q
    obtain ⟨hexit, hmove, hreduce, hbarrier⟩ := stuck_local hstuck hit hrun q
    have hsend := stuck_send h hstuck hit hrun numProcs q (by omega)
    have hrecv := stuck_recv h hstuck hit hrun q
    cases hpc : (s.ranks q).pc <;> simp_all
  have hlength : ∀ q, (s.ranks q).contributed.length = (counting (it + 1)).length := by
    intro q
    rw [(h.rank q).contributed, List.length_map, hit]
    rcases hwait q with hpc | hpc <;> rw [hpc] <;> rfl
  have hreducible : ∀ q, s.reducible (s.ranks q) := by
    intro q p
    exact Nat.le_of_eq ((hlength q).trans (hlength p).symm)
  have hreduce : ∀ q, (s.ranks q).pc ≠ .reduceWait := by
    intro q hpc
    rcases Nat.eq_zero_or_pos q.val with hq | hq
    · exact hstuck _ _ (.reduceRoot q hq hpc (hreducible q))
    · exact hstuck _ _ (.reduceLeave q (Nat.ne_of_gt hq) hpc (Or.inr (hreducible q)))
  have hbarriers : ∀ q, (s.ranks q).barriers = it + 1 := by
    intro q
    have hpc := (hwait q).resolve_left (hreduce q)
    rw [(h.rank q).barriers, hit, hpc]
    rfl
  have hall : ∀ q, (s.ranks r).barriers ≤ (s.ranks q).barriers :=
    fun q => Nat.le_of_eq ((hbarriers r).trans (hbarriers q).symm)
  exact hstuck _ _ (.barrierLeave r ((hwait r).resolve_left (hreduce r)) hall)

omit hit hrun in
theorem stuck_finished (r : Fin numProcs) : setup.finished (s.ranks r) := by
  have hit := fun q => stuck_it h hstuck q r
  have hdone : ¬ (s.ranks r).it < setup.numIterations :=
    fun hrun => stuck_collective h hstuck hit hrun r
  refine ⟨?_, hdone⟩
  by_contra hpc
  exact hdone ((h.rank r).running hpc)

end

/-! ## The whole road -/

/-- The rank has received its cars of iteration `it`, and the next one has not begun. -/
def Rank.Completed (it : Nat) (rank : Rank) : Prop :=
  rank.it = it ∧ rank.pc.received = 1 ∨ rank.it = it + 1 ∧ rank.pc = .exit

def Setup.array (setup : Setup numProcs) (rank : Rank) : List Nat :=
  (List.range setup.len).map rank.segments

theorem RankOk.completed {r : Fin numProcs} {rank : Rank} (h : RankOk setup r rank) {it : Nat}
    (hit : rank.Completed it) : setup.Holds r (it + 1) rank.segments := by
  have hsegments := h.segments
  unfold Setup.SegmentsOk at hsegments
  rcases hit with ⟨rfl, hreceived⟩ | ⟨hit, hpc⟩
  · cases hpc : rank.pc <;> rw [hpc] at hsegments hreceived <;>
      first | exact hsegments | cases hreceived
  · rw [hpc] at hsegments
    exact hit ▸ hsegments

/-- For any number of ranks, in any order of their steps: no state is stuck before all ranks
are finished; a rank that has completed an iteration holds its part of the road of a single
process, and when all have completed it, their arrays together are that road; and rank 0
prints the cars that have entered less those that have left. -/
theorem refines_single_process (setup : Setup numProcs) (s : State numProcs)
    (h : (system setup).Reachable s) :
    ((system setup).Stuck s → ∀ r, setup.finished (s.ranks r)) ∧
    (∀ it r, (s.ranks r).Completed it → setup.array (s.ranks r) =
      (List.range setup.len).map fun i => (setup.whole (it + 1)).segments (r * setup.len + i)) ∧
    (∀ it, (∀ r, (s.ranks r).Completed it) →
      (List.finRange numProcs).flatMap (fun r => setup.array (s.ranks r)) =
        (List.range (numProcs * setup.len)).map (setup.whole (it + 1)).segments) ∧
    ∀ it sum, (it, sum) ∈ s.printed →
      sum + (setup.whole (it + 1)).left =
        ((List.range (it + 1)).map setup.createRandomInput).sum := by
  have hinv := Inv.reachable h
  have harray : ∀ it r, (s.ranks r).Completed it → setup.array (s.ranks r) =
      (List.range setup.len).map fun i =>
        (setup.whole (it + 1)).segments (r.val * setup.len + i) := by
    intro it r hit
    apply List.map_congr_left
    exact fun i hi => (hinv.rank r).completed hit i (List.mem_range.mp hi)
  refine ⟨fun hstuck r => stuck_finished hinv hstuck r, harray, ?_, ?_⟩
  · intro it hall
    rw [← Slices.map_slices]
    apply List.flatMap_congr
    exact fun r _ => harray it r (hall r)
  · intro it sum hprinted
    have hpos : 0 < numProcs := by
      rcases Nat.eq_zero_or_pos numProcs with rfl | hpos
      · have := setup.len_pos
        simp at this
      · exact hpos
    rw [hinv.printed ⟨0, hpos⟩ rfl] at hprinted
    obtain ⟨it', -, heq⟩ := List.mem_map.mp hprinted
    obtain ⟨rfl, rfl⟩ := Prod.mk.inj heq
    exact road_conserves _ _ (Nat.mul_pos hpos setup.len_pos) _

/-- Two ranks with one segment each, which do not buffer, and five cars that enter. -/
def twoRanks : Setup 2 where
  numSegments := 2
  numIterations := 1
  moveNextSegment _ _ _ := true
  createRandomInput _ := 5
  buffered _ _ := false
  early _ _ := false
  len_pos := by decide

theorem refines_single_process_two :
    ∃ s, (system twoRanks).Reachable s ∧ ¬ (system twoRanks).Stuck s ∧
      (List.finRange 2).flatMap (fun r => twoRanks.array (s.ranks r)) =
        (List.range 2).map (twoRanks.whole 1).segments := by
  have h0 : (system twoRanks).Reachable (initial 2) := .start rfl
  have h1 := h0.step (Step.exit 0 (by decide) rfl)
  have h2 := h1.step (Step.exit 1 (by decide) rfl)
  have h3 := h2.step (Step.move 1 rfl)
  have h4 := h3.step (Step.sendRendezvous 0 1 _ rfl rfl rfl rfl rfl)
  have h5 := h4.step (Step.move 0 rfl)
  have h6 := h5.step (Step.input 0 rfl rfl)
  have hall := refines_single_process twoRanks _ h6
  refine ⟨_, h6, fun hstuck => ?_, hall.2.2.1 0 fun r => Or.inl ?_⟩
  · cases (hall.1 hstuck 0).1
  · match r with
    | 0 => exact ⟨rfl, rfl⟩
    | 1 => exact ⟨rfl, rfl⟩

end Nsds.LinearRoad
