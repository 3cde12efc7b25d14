import Nsds.Mpi.LinearRoad.Road

/-!
# What the ranks hold

Wherever the ranks are in their iterations, a rank holds its part of the road of a
single process, and what was sent to it and not received is what crosses the boundary
behind it.
-/

namespace Nsds.LinearRoad

open Transition

variable {numProcs : Nat} (setup : Setup numProcs)

/-- The road of a single process with as many segments, before iteration `it`. -/
def Setup.whole (it : Nat) : Road :=
  road setup.moveNextSegment setup.createRandomInput (numProcs * setup.len) it

/-- What comes into the part of rank `r` in iteration `it`. -/
def Setup.inflow (it r : Nat) : Nat :=
  arriving (setup.moveNextSegment it) 0 (setup.whole it).segments (setup.createRandomInput it)
    (r * setup.len)

/-- `segments` is the part of rank `r` before iteration `it`. -/
def Setup.Holds (r : Fin numProcs) (it : Nat) (segments : Segments) : Prop :=
  ∀ i, i < setup.len → segments i = (setup.whole it).segments (setup.offset r + i)

/-! ## Counting calls -/

/-- Sends, receives and reductions of the iteration that are over. -/
def Pc.sent : Pc → Nat
  | .exit | .send _ => 0
  | _ => 1

def Pc.received : Pc → Nat
  | .exit | .send _ | .move | .recv => 0
  | _ => 1

def Pc.contributed : Pc → Nat
  | .reduceWait | .barrier | .barrierWait => 1
  | _ => 0

def Pc.reduced : Pc → Nat
  | .barrier | .barrierWait => 1
  | _ => 0

def Pc.atBarrier : Pc → Nat
  | .barrierWait => 1
  | _ => 0

def Rank.sent (rank : Rank) : Nat := rank.it + rank.pc.sent

def Rank.received (rank : Rank) : Nat := rank.it + rank.pc.received

def counting (n : Nat) : List Nat := (List.range n).filter fun it => it % countEvery = 0

theorem counting_succ (n : Nat) :
    counting (n + 1) = if n % countEvery = 0 then counting n ++ [n] else counting n := by
  unfold counting
  rw [List.range_succ, List.filter_append, List.filter_cons]
  split
  · rename_i h
    rw [if_pos (by simpa using h)]
    rfl
  · rename_i h
    rw [if_neg (by simpa using h)]
    exact List.append_nil _

theorem counting_mono {n m : Nat} (h : n ≤ m) : counting n <+: counting m := by
  induction h with
  | refl => exact List.prefix_refl _
  | step _ ih =>
    rw [counting_succ]
    split
    · exact ih.trans (List.prefix_append _ _)
    · exact ih

/-! ## The invariant -/

/-- What a rank holds at each place of its iteration. -/
def Setup.SegmentsOk (r : Fin numProcs) (rank : Rank) : Prop :=
  match rank.pc with
  | .exit => setup.Holds r rank.it rank.segments
  | .send exitingCars =>
    r.val + 1 < numProcs ∧ exitingCars = setup.inflow rank.it (r + 1) ∧
      ∃ segments, setup.Holds r rank.it segments ∧ rank.segments =
        (exitCars (setup.moveNextSegment rank.it) (setup.offset r) (setup.len - 1) segments).1
  | .move =>
    ∃ segments, setup.Holds r rank.it segments ∧ rank.segments =
      (exitCars (setup.moveNextSegment rank.it) (setup.offset r) (setup.len - 1) segments).1
  | .recv =>
    ∃ segments, setup.Holds r rank.it segments ∧ ∀ n, enterCars rank.segments n =
      simulate (setup.moveNextSegment rank.it) (setup.offset r) setup.len segments n
  | _ => setup.Holds r (rank.it + 1) rank.segments

structure RankOk (r : Fin numProcs) (rank : Rank) : Prop where
  running : rank.pc ≠ .exit → rank.it < setup.numIterations
  reducing : rank.pc = .reduce ∨ rank.pc = .reduceWait → rank.it % countEvery = 0
  segments : setup.SegmentsOk r rank
  contributed : rank.contributed = (counting (rank.it + rank.pc.contributed)).map fun it =>
    localSum setup.len fun i => (setup.whole (it + 1)).segments (setup.offset r + i)
  barriers : rank.barriers = rank.it + rank.pc.atBarrier

/-- What rank `r` sent and the next one did not receive. -/
def ChannelOk (s : State numProcs) (r next : Fin numProcs) : Prop :=
  (s.ranks next).received ≤ (s.ranks r).sent ∧
    s.pending r = (List.range' (s.ranks next).received
      ((s.ranks r).sent - (s.ranks next).received)).map fun it => setup.inflow it next

def Setup.output (rank : Rank) : List (Nat × Nat) :=
  (counting (rank.it + rank.pc.reduced)).map fun it =>
    (it, localSum (numProcs * setup.len) (setup.whole (it + 1)).segments)

structure Inv (s : State numProcs) : Prop where
  rank : ∀ r, RankOk setup r (s.ranks r)
  channel : ∀ r next : Fin numProcs, next.val = r.val + 1 → ChannelOk setup s r next
  skew : ∀ r q, (s.ranks r).it ≤ (s.ranks q).barriers
  printed : ∀ r : Fin numProcs, r.val = 0 → s.printed = setup.output (s.ranks r)

variable {setup} {s t : State numProcs} {r : Fin numProcs} {rank : Rank} {a : Action}

theorem setRank_self : (s.setRank r rank).ranks r = rank := Function.update_self _ _ _

theorem setRank_of_ne {q : Fin numProcs} (h : q ≠ r) : (s.setRank r rank).ranks q = s.ranks q :=
  Function.update_of_ne h _ _

theorem forall_setRank {p : Fin numProcs → Rank → Prop} (h : ∀ q, p q (s.ranks q))
    (hr : p r rank) (q : Fin numProcs) : p q ((s.setRank r rank).ranks q) := by
  rcases eq_or_ne q r with rfl | hq
  · rw [setRank_self]; exact hr
  · rw [setRank_of_ne hq]; exact h q

theorem offset_le (setup : Setup numProcs) (r : Fin numProcs) :
    setup.offset r + setup.len ≤ numProcs * setup.len := by
  unfold Setup.offset
  calc r.val * setup.len + setup.len = (r.val + 1) * setup.len := (Nat.succ_mul _ _).symm
    _ ≤ numProcs * setup.len := Nat.mul_le_mul_right _ r.isLt

theorem Setup.Holds.crossing {it : Nat} {segments : Segments} (h : setup.Holds r it segments) :
    crossing (setup.moveNextSegment it) (setup.offset r) segments (setup.len - 1) =
      setup.inflow it (r + 1) := by
  have hlen : 0 < setup.len := setup.len_pos
  have hlast : (r.val + 1) * setup.len - 1 = setup.offset r + (setup.len - 1) := by
    rw [Nat.succ_mul, Nat.add_sub_assoc hlen]
    rfl
  have hpos : (r.val + 1) * setup.len ≠ 0 :=
    Nat.mul_ne_zero (Nat.succ_ne_zero _) (Nat.ne_of_gt hlen)
  unfold Setup.inflow arriving
  rw [if_neg hpos, hlast]
  unfold LinearRoad.crossing
  rw [h (setup.len - 1) (Nat.sub_lt hlen Nat.one_pos), Nat.zero_add]

theorem Setup.Holds.simulate {it : Nat} {segments : Segments} (h : setup.Holds r it segments) :
    setup.Holds r (it + 1) (simulate (setup.moveNextSegment it) (setup.offset r) setup.len segments
      (setup.inflow it r)) := by
  intro i hi
  have hinflow : setup.inflow it r = arriving (setup.moveNextSegment it) 0
      (setup.whole it).segments (setup.createRandomInput it) (setup.offset r) := rfl
  rw [simulate_slice (setup.moveNextSegment it) h (offset_le setup r) hinflow hi]
  unfold Setup.whole
  rw [road_segments]

/-! ## The steps of one rank -/

theorem RankOk.exit (h : RankOk setup r rank) (hit : rank.it < setup.numIterations)
    (hpc : rank.pc = .exit) : RankOk setup r (setup.exit r rank) := by
  obtain ⟨it, pc, segments, contributed, barriers⟩ := rank
  change pc = .exit at hpc
  subst hpc
  have hholds : setup.Holds r it segments := h.segments
  have hexit := exitCars_eq (setup.moveNextSegment it) (setup.offset r) (setup.len - 1) segments
  rw [hholds.crossing] at hexit
  have hfst := (congrArg Prod.fst hexit).symm
  unfold Setup.exit
  rw [hexit]
  dsimp only
  split
  · refine ⟨fun _ => hit, ?_, ?_, h.contributed, h.barriers⟩
    · rintro (hpc | hpc) <;> cases hpc
    · exact ⟨segments, hholds, hfst⟩
  · rename_i hlast
    refine ⟨fun _ => hit, ?_, ?_, h.contributed, h.barriers⟩
    · rintro (hpc | hpc) <;> cases hpc
    · exact ⟨by omega, rfl, segments, hholds, hfst⟩

theorem RankOk.send (h : RankOk setup r rank) {exitingCars : Nat}
    (hpc : rank.pc = .send exitingCars) : RankOk setup r { rank with pc := .move } := by
  obtain ⟨it, pc, segments, contributed, barriers⟩ := rank
  change pc = .send exitingCars at hpc
  subst hpc
  refine ⟨fun _ => h.running Pc.noConfusion, ?_, h.segments.2.2, h.contributed, h.barriers⟩
  rintro (hpc | hpc) <;> cases hpc

theorem RankOk.move (h : RankOk setup r rank) (hpc : rank.pc = .move) :
    RankOk setup r (setup.move r rank) := by
  obtain ⟨it, pc, segments, contributed, barriers⟩ := rank
  change pc = .move at hpc
  subst hpc
  obtain ⟨before, hholds, heq⟩ := h.segments
  change segments = _ at heq
  refine ⟨fun _ => h.running Pc.noConfusion, ?_, ⟨before, hholds, fun n => ?_⟩, h.contributed,
    h.barriers⟩
  · rintro (hpc | hpc) <;> cases hpc
  · unfold Setup.move
    rw [heq]
    rfl

theorem RankOk.enter (h : RankOk setup r rank) (hpc : rank.pc = .recv) {n : Nat}
    (hn : n = setup.inflow rank.it r) : RankOk setup r (rank.enter n) := by
  obtain ⟨it, pc, segments, contributed, barriers⟩ := rank
  change pc = .recv at hpc
  subst hpc
  obtain ⟨before, hholds, heq⟩ := h.segments
  have hnew : setup.Holds r (it + 1) (enterCars segments n) := by
    rw [heq n, hn]
    exact hholds.simulate
  unfold Rank.enter
  split
  · rename_i hcount
    exact ⟨fun _ => h.running Pc.noConfusion, fun _ => hcount, hnew, h.contributed, h.barriers⟩
  · rename_i hcount
    refine ⟨fun _ => h.running Pc.noConfusion, ?_, hnew, ?_, h.barriers⟩
    · rintro (hpc | hpc) <;> cases hpc
    · simp only [Pc.contributed, counting_succ, if_neg hcount]
      exact h.contributed

theorem RankOk.reduce (h : RankOk setup r rank) (hpc : rank.pc = .reduce) :
    RankOk setup r (setup.reduce rank) := by
  obtain ⟨it, pc, segments, contributed, barriers⟩ := rank
  change pc = .reduce at hpc
  subst hpc
  have hcount := h.reducing (Or.inl rfl)
  have hsegments : setup.Holds r (it + 1) segments := h.segments
  refine ⟨fun _ => h.running Pc.noConfusion, fun _ => hcount, hsegments, ?_, h.barriers⟩
  have hcontributed : contributed = (counting it).map _ := h.contributed
  change it % countEvery = 0 at hcount
  unfold Setup.reduce
  simp only [Pc.contributed, counting_succ, if_pos hcount, List.map_append, List.map_singleton]
  rw [hcontributed]
  congr 2
  unfold localSum
  congr 1
  apply List.map_congr_left
  exact fun i hi => hsegments i (List.mem_range.mp hi)

theorem RankOk.leave (h : RankOk setup r rank) (hpc : rank.pc = .reduceWait) :
    RankOk setup r { rank with pc := .barrier } := by
  obtain ⟨it, pc, segments, contributed, barriers⟩ := rank
  change pc = .reduceWait at hpc
  subst hpc
  refine ⟨fun _ => h.running Pc.noConfusion, ?_, h.segments, h.contributed, h.barriers⟩
  rintro (hpc | hpc) <;> cases hpc

theorem RankOk.barrier (h : RankOk setup r rank) (hpc : rank.pc = .barrier) :
    RankOk setup r rank.barrier := by
  obtain ⟨it, pc, segments, contributed, barriers⟩ := rank
  change pc = .barrier at hpc
  subst hpc
  refine ⟨fun _ => h.running Pc.noConfusion, ?_, h.segments, h.contributed,
    congrArg (· + 1) h.barriers⟩
  rintro (hpc | hpc) <;> cases hpc

theorem RankOk.next (h : RankOk setup r rank) (hpc : rank.pc = .barrierWait) :
    RankOk setup r rank.next := by
  obtain ⟨it, pc, segments, contributed, barriers⟩ := rank
  change pc = .barrierWait at hpc
  subst hpc
  refine ⟨fun hpc => absurd rfl hpc, ?_, h.segments, h.contributed, h.barriers⟩
  rintro (hpc | hpc) <;> cases hpc

end Nsds.LinearRoad
