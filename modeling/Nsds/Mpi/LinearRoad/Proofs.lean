import Nsds.Mpi.LinearRoad.Invariant

/-!
# Any order of the steps

Every step keeps the invariant, and as long as a rank is not finished some step is
possible: the rightmost rank that wants to send finds the next one waiting for it.
-/

namespace Nsds.LinearRoad

open Transition

variable {numProcs : Nat} {setup : Setup numProcs} {s t : State numProcs} {r : Fin numProcs}
  {rank : Rank} {a : Action}

theorem enter_received (n : Nat) : (rank.enter n).received = rank.it + 1 := by
  unfold Rank.enter Rank.received
  dsimp only
  split <;> rfl

theorem enter_sent (n : Nat) : (rank.enter n).sent = rank.it + 1 := by
  unfold Rank.enter Rank.sent
  dsimp only
  split <;> rfl

theorem enter_output (n : Nat) (hpc : rank.pc = .recv) :
    setup.output (rank.enter n) = setup.output rank := by
  have hreduced : rank.pc.reduced = 0 := by rw [hpc]; rfl
  unfold Setup.output Rank.enter
  dsimp only
  split
  · rw [hreduced]
    rfl
  · rename_i hcount
    rw [hreduced]
    simp only [Pc.reduced, counting_succ, if_neg hcount]
    rfl

/-! ## Channels -/

theorem ChannelOk.congr {p n : Fin numProcs} (h : ChannelOk setup s p n)
    (hsent : (t.ranks p).sent = (s.ranks p).sent)
    (hreceived : (t.ranks n).received = (s.ranks n).received)
    (hpending : t.pending p = s.pending p) : ChannelOk setup t p n := by
  unfold ChannelOk
  rw [hsent, hreceived, hpending]
  exact h

theorem ChannelOk.head {p n : Fin numProcs} (h : ChannelOk setup s p n) {buff : Nat}
    {rest : List Nat} (hp : s.pending p = buff :: rest) :
    buff = setup.inflow (s.ranks n).received n ∧
      (s.ranks n).received + 1 ≤ (s.ranks p).sent ∧
      rest = (List.range' ((s.ranks n).received + 1)
        ((s.ranks p).sent - ((s.ranks n).received + 1))).map fun it => setup.inflow it n := by
  obtain ⟨hle, heq⟩ := h
  rw [hp] at heq
  obtain ⟨k, hk⟩ := Nat.exists_eq_add_of_le hle
  rw [hk, Nat.add_sub_cancel_left] at heq
  cases k with
  | zero => simp at heq
  | succ k =>
    rw [List.range'_succ, List.map_cons] at heq
    obtain ⟨hbuff, hrest⟩ := List.cons.inj heq
    refine ⟨hbuff, by omega, ?_⟩
    rw [hrest, hk]
    congr 2
    omega

/-! ## Steps -/

theorem Inv.update (h : Inv setup s) (ht : t.ranks = (s.setRank r rank).ranks)
    (hrank : RankOk setup r rank) (hit : ∀ q, rank.it ≤ (s.ranks q).barriers)
    (hbarriers : (s.ranks r).barriers ≤ rank.barriers)
    (hchannel : ∀ p n : Fin numProcs, n.val = p.val + 1 → ChannelOk setup t p n)
    (hprinted : ∀ q : Fin numProcs, q.val = 0 → t.printed = setup.output (t.ranks q)) :
    Inv setup t where
  rank := by
    rw [ht]
    exact forall_setRank h.rank hrank
  channel := hchannel
  skew p q := by
    rw [ht]
    rcases eq_or_ne p r with rfl | hp <;> rcases eq_or_ne q p with rfl | hq
    · rw [setRank_self]
      exact Nat.le_trans (hit q) hbarriers
    · rw [setRank_self, setRank_of_ne hq]
      exact hit q
    · rw [setRank_of_ne hp]
      exact h.skew q q
    · rw [setRank_of_ne hp]
      rcases eq_or_ne q r with rfl | hqr
      · rw [setRank_self]
        exact Nat.le_trans (h.skew p q) hbarriers
      · rw [setRank_of_ne hqr]
        exact h.skew p q
  printed := hprinted

theorem Inv.setRank (h : Inv setup s) (hrank : RankOk setup r rank)
    (hit : ∀ q, rank.it ≤ (s.ranks q).barriers)
    (hbarriers : (s.ranks r).barriers ≤ rank.barriers)
    (hsent : r.val + 1 < numProcs → rank.sent = (s.ranks r).sent)
    (hreceived : r.val ≠ 0 → rank.received = (s.ranks r).received)
    (houtput : r.val = 0 → setup.output rank = setup.output (s.ranks r)) :
    Inv setup (s.setRank r rank) := by
  apply h.update rfl hrank hit hbarriers
  · intro p n hn
    apply (h.channel p n hn).congr
    · rcases eq_or_ne p r with rfl | hp
      · rw [setRank_self]
        exact hsent (hn ▸ n.isLt)
      · rw [setRank_of_ne hp]
    · rcases eq_or_ne n r with rfl | hr
      · rw [setRank_self]
        exact hreceived (by omega)
      · rw [setRank_of_ne hr]
    · rfl
  · intro q hq
    rcases eq_or_ne q r with rfl | hr
    · rw [setRank_self, houtput hq]
      exact h.printed q hq
    · rw [setRank_of_ne hr]
      exact h.printed q hq

theorem Inv.setPc (h : Inv setup s) (hrank : RankOk setup r rank) (hit : rank.it = (s.ranks r).it)
    (hbarriers : (s.ranks r).barriers ≤ rank.barriers)
    (hsent : r.val + 1 < numProcs → rank.pc.sent = (s.ranks r).pc.sent)
    (hreceived : rank.pc.received = (s.ranks r).pc.received)
    (hreduced : r.val = 0 → rank.pc.reduced = (s.ranks r).pc.reduced) :
    Inv setup (s.setRank r rank) := by
  apply h.setRank hrank (fun q => hit ▸ h.skew r q) hbarriers
  · intro hr
    unfold Rank.sent
    rw [hit, hsent hr]
  · intro _
    unfold Rank.received
    rw [hit, hreceived]
  · intro hr
    unfold Setup.output
    rw [hit, hreduced hr]

theorem Inv.send (h : Inv setup s) {exitingCars : Nat} (hpc : (s.ranks r).pc = .send exitingCars) :
    Inv setup ((s.setRank r { s.ranks r with pc := .move }).setPending r
      (s.pending r ++ [exitingCars])) := by
  have hrank := h.rank r
  have hsent : (s.ranks r).sent = (s.ranks r).it := by unfold Rank.sent; rw [hpc]; rfl
  have hsegments := hrank.segments
  unfold Setup.SegmentsOk at hsegments
  rw [hpc] at hsegments
  refine h.update ?_ (hrank.send hpc) (h.skew r) (Nat.le_refl _) ?_ ?_
  · rfl
  · intro p n hn
    have hreceived : ((s.setRank r { s.ranks r with pc := .move }).ranks n).received =
        (s.ranks n).received := by
      rcases eq_or_ne n r with rfl | hr
      · rw [setRank_self]
        unfold Rank.received
        rw [hpc]
        rfl
      · rw [setRank_of_ne hr]
    rcases eq_or_ne p r with rfl | hp
    · obtain ⟨hle, heq⟩ := h.channel p n hn
      rw [hsent] at hle heq
      have hnew : ((s.setRank p { s.ranks p with pc := .move }).ranks p).sent =
          (s.ranks p).it + 1 := by
        rw [setRank_self]
        rfl
      unfold ChannelOk State.setPending
      simp only [hreceived, hnew, Function.update_self]
      refine ⟨by omega, ?_⟩
      rw [Nat.succ_sub hle, List.range'_1_concat, List.map_append, ← heq, hsegments.2.1,
        ← hn, Nat.add_sub_cancel' hle]
      rfl
    · apply (h.channel p n hn).congr
      · exact congrArg Rank.sent (setRank_of_ne hp)
      · exact hreceived
      · exact Function.update_of_ne hp _ _
  · intro q hq
    change s.printed = setup.output ((s.setRank r _).ranks q)
    rw [h.printed q hq]
    rcases eq_or_ne q r with rfl | hr
    · rw [setRank_self]
      unfold Setup.output
      rw [hpc]
      rfl
    · rw [setRank_of_ne hr]

theorem Inv.recv (h : Inv setup s) {prev : Fin numProcs} {buff : Nat} {rest : List Nat}
    (hr : r.val = prev.val + 1) (hpc : (s.ranks r).pc = .recv)
    (hp : s.pending prev = buff :: rest) :
    Inv setup ((s.setRank r ((s.ranks r).enter buff)).setPending prev rest) := by
  have hreceived : (s.ranks r).received = (s.ranks r).it := by unfold Rank.received; rw [hpc]; rfl
  have hsent : (s.ranks r).sent = (s.ranks r).it + 1 := by unfold Rank.sent; rw [hpc]; rfl
  obtain ⟨hbuff, hle, hrest⟩ := (h.channel prev r hr).head hp
  rw [hreceived] at hbuff hle hrest
  have hne : prev ≠ r := by
    rintro rfl
    omega
  refine h.update ?_ ((h.rank r).enter hpc hbuff) (h.skew r) (Nat.le_refl _) ?_ ?_
  · rfl
  · intro p n hn
    rcases eq_or_ne p prev with rfl | hp'
    · have hnr : n = r := Fin.ext (by omega)
      subst hnr
      unfold ChannelOk State.setPending
      simp only [setRank_self, setRank_of_ne hne, enter_received, Function.update_self]
      exact ⟨hle, hrest⟩
    · have hnr : n ≠ r := by
        rintro rfl
        exact hp' (Fin.ext (by omega))
      apply (h.channel p n hn).congr
      · change ((s.setRank r _).ranks p).sent = _
        rcases eq_or_ne p r with rfl | hpr
        · rw [setRank_self, enter_sent, hsent]
        · rw [setRank_of_ne hpr]
      · exact congrArg Rank.received (setRank_of_ne hnr)
      · exact Function.update_of_ne hp' _ _
  · intro q hq
    have hqr : q ≠ r := by
      rintro rfl
      omega
    change s.printed = _
    rw [h.printed q hq]
    exact congrArg setup.output (setRank_of_ne hqr).symm

theorem Inv.meet (h : Inv setup s) {next : Fin numProcs} {exitingCars : Nat}
    (hnext : next.val = r.val + 1) (hpc : (s.ranks r).pc = .send exitingCars)
    (hrecv : (s.ranks next).pc = .recv) (hp : s.pending r = []) :
    Inv setup ((s.setRank r { s.ranks r with pc := .move }).setRank next
      ((s.ranks next).enter exitingCars)) := by
  have hne : next ≠ r := by
    rintro rfl
    omega
  have hsend := h.send hpc
  generalize hs1 : (s.setRank r { s.ranks r with pc := .move }).setPending r
    (s.pending r ++ [exitingCars]) = s1 at hsend
  have hranks : s1.ranks next = s.ranks next := hs1 ▸ setRank_of_ne hne
  have hpending : s1.pending r = [exitingCars] := by
    rw [← hs1, hp]
    exact Function.update_self _ _ _
  have hboth := hsend.recv hnext (hranks ▸ hrecv) hpending
  rw [hranks, ← hs1] at hboth
  have hclear : Function.update (Function.update s.pending r (s.pending r ++ [exitingCars])) r [] =
      s.pending := by
    rw [Function.update_idem, ← hp, Function.update_eq_self]
  unfold State.setPending State.setRank at hboth
  dsimp only at hboth
  rw [hclear] at hboth
  exact hboth

theorem globalSum_eq (h : ∀ q, RankOk setup q (s.ranks q)) (hpc : (s.ranks r).pc = .reduceWait)
    (hall : s.reducible (s.ranks r)) :
    s.globalSum (s.ranks r) =
      localSum (numProcs * setup.len) (setup.whole ((s.ranks r).it + 1)).segments := by
  have hcount := (h r).reducing (Or.inr hpc)
  have hsucc := counting_succ (s.ranks r).it
  rw [if_pos hcount] at hsucc
  have hown : (s.ranks r).contributed.length = (counting (s.ranks r).it).length + 1 := by
    rw [(h r).contributed, hpc, List.length_map, Pc.contributed, hsucc, List.length_append]
    rfl
  have hget : ∀ q : Fin numProcs,
      (s.ranks q).contributed.getD ((s.ranks r).contributed.length - 1) 0 =
        localSum setup.len fun i =>
          (setup.whole ((s.ranks r).it + 1)).segments (q.val * setup.len + i) := by
    intro q
    have hlen := hall q
    rw [hown, Nat.add_sub_cancel]
    rw [hown, (h q).contributed, List.length_map] at hlen
    rw [(h q).contributed]
    -- A rank that contributed as often has come at least as far.
    rcases Nat.lt_or_ge (s.ranks r).it ((s.ranks q).it + (s.ranks q).pc.contributed) with hlt | hge
    · obtain ⟨rest, hrest⟩ := counting_mono hlt
      rw [← hrest, hsucc]
      simp
      rfl
    · have := (counting_mono hge).length_le
      omega
  unfold State.globalSum
  rw [List.map_congr_left fun q _ => hget q]
  exact Slices.sum_slices _ numProcs setup.len

theorem Inv.exit (h : Inv setup s) (hit : (s.ranks r).it < setup.numIterations)
    (hpc : (s.ranks r).pc = .exit) : Inv setup (s.setRank r (setup.exit r (s.ranks r))) := by
  have heq : setup.exit r (s.ranks r) = { s.ranks r with
      segments := (setup.exit r (s.ranks r)).segments
      pc := if r.val = numProcs - 1 then .move else .send (crossing
        (setup.moveNextSegment (s.ranks r).it) (setup.offset r) (s.ranks r).segments
        (setup.len - 1)) } := by
    unfold Setup.exit
    rw [exitCars_eq]
  have hrank := (h.rank r).exit hit hpc
  rw [heq] at hrank ⊢
  refine h.setPc hrank rfl (Nat.le_refl _) ?_ ?_ ?_
  · intro hr
    rw [if_neg (by omega), hpc]
    rfl
  · rw [hpc]
    dsimp only
    split <;> rfl
  · intro _
    rw [hpc]
    dsimp only
    split <;> rfl

theorem Inv.reduceRoot (h : Inv setup s) (hr : r.val = 0) (hpc : (s.ranks r).pc = .reduceWait)
    (hall : s.reducible (s.ranks r)) :
    Inv setup { s.setRank r { s.ranks r with pc := .barrier } with
      printed := s.printed ++ [((s.ranks r).it, s.globalSum (s.ranks r))] } := by
  refine h.update ?_ ((h.rank r).leave hpc) (h.skew r) (Nat.le_refl _) ?_ ?_
  · rfl
  · intro p n hn
    apply (h.channel p n hn).congr
    · change ((s.setRank r _).ranks p).sent = _
      rcases eq_or_ne p r with rfl | hp
      · rw [setRank_self]
        unfold Rank.sent
        rw [hpc]
        rfl
      · rw [setRank_of_ne hp]
    · exact congrArg Rank.received (setRank_of_ne (by rintro rfl; omega))
    · rfl
  · intro q hq
    have hqr : q = r := Fin.ext (by omega)
    subst hqr
    have hcount := (h.rank q).reducing (Or.inr hpc)
    change _ = setup.output ((s.setRank q _).ranks q)
    rw [setRank_self, h.printed q hq, globalSum_eq h.rank hpc hall]
    unfold Setup.output
    rw [hpc]
    simp only [Pc.reduced, counting_succ, if_pos hcount, List.map_append]
    rfl

theorem Inv.step (h : Inv setup s) (hstep : Step setup s a t) : Inv setup t := by
  cases hstep with
  | exit r hit hpc => exact h.exit hit hpc
  | sendBuffered r exitingCars hpc hb => exact h.send hpc
  | sendRendezvous r next exitingCars hnext hpc hb hrecv hp =>
    exact h.meet hnext hpc hrecv hp
  | move r hpc =>
    exact h.setPc ((h.rank r).move hpc) rfl (Nat.le_refl _) (fun _ => by rw [hpc]; rfl)
      (by rw [hpc]; rfl) fun _ => by rw [hpc]; rfl
  | input r hr hpc =>
    have hinflow : setup.createRandomInput (s.ranks r).it = setup.inflow (s.ranks r).it r := by
      unfold Setup.inflow arriving
      rw [hr, Nat.zero_mul, if_pos rfl]
    refine h.setRank ((h.rank r).enter hpc hinflow) (h.skew r) (Nat.le_refl _) ?_ ?_ ?_
    · intro _
      rw [enter_sent]
      unfold Rank.sent
      rw [hpc]
      rfl
    · exact fun hr' => absurd hr hr'
    · exact fun _ => enter_output _ hpc
  | recv prev r buff rest hr hpc hp => exact h.recv hr hpc hp
  | reduce r hpc =>
    exact h.setPc ((h.rank r).reduce hpc) rfl (Nat.le_refl _) (fun _ => by rw [hpc]; rfl)
      (by rw [hpc]; rfl) fun _ => by rw [hpc]; rfl
  | reduceLeave r hr hpc hall =>
    exact h.setPc ((h.rank r).leave hpc) rfl (Nat.le_refl _) (fun _ => by rw [hpc]; rfl)
      (by rw [hpc]; rfl) fun hr' => absurd hr' hr
  | reduceRoot r hr hpc hall => exact h.reduceRoot hr hpc hall
  | barrier r hpc =>
    exact h.setPc ((h.rank r).barrier hpc) rfl (Nat.le_succ _) (fun _ => by rw [hpc]; rfl)
      (by rw [hpc]; rfl) fun _ => by rw [hpc]; rfl
  | barrierLeave r hpc hall =>
    have hbarriers := (h.rank r).barriers
    rw [hpc] at hbarriers
    refine h.setRank ((h.rank r).next hpc) ?_ (Nat.le_refl _) ?_ ?_ ?_
    · intro q
      have := hall q
      rw [hbarriers] at this
      exact this
    · intro _
      unfold Rank.sent
      rw [hpc]
      rfl
    · intro _
      unfold Rank.received
      rw [hpc]
      rfl
    · intro _
      unfold Setup.output
      rw [hpc]
      rfl

end Nsds.LinearRoad
