import Mathlib.Algebra.Order.BigOperators.Group.List
import Mathlib.Algebra.Order.Group.Nat
import Mathlib.Data.List.Nodup
import Nsds.Lib.Arrays
import Nsds.Mpi.Filter.Messages

/-!
# The collection of `filter.c`

The master waits for those that have multiples and for no others, and what it receives
fits the array.
-/

namespace Nsds.Filter

open MachineInt Transition
open scoped List

variable {setup : Setup} {s : State} {counted : Nat} {taken : List Nat}

/-! ## Counts -/

theorem total_succ {proc : Nat} (h : 1 ≤ proc) :
    setup.total (proc + 1) = setup.total proc + setup.numFiltered proc := by
  simp [Setup.total, ranks_succ h]

theorem total_mono {m n : Nat} (hm : 1 ≤ m) (hmn : m ≤ n) : setup.total m ≤ setup.total n := by
  induction hmn with
  | refl => exact le_rfl
  | step hmn ih =>
    rw [total_succ (hm.trans hmn)]
    omega

theorem length_senders_succ {proc : Nat} (h : 1 ≤ proc) :
    (setup.senders (proc + 1)).length =
      if 0 < setup.numFiltered proc then (setup.senders proc).length + 1
      else (setup.senders proc).length := by
  unfold Setup.senders
  rw [ranks_succ h, List.filter_append, List.length_append, List.filter_singleton]
  split <;> simp_all

theorem mem_senders {r : Nat} :
    r ∈ setup.senders setup.worldSize ↔ setup.IsWorker r ∧ 0 < setup.numFiltered r := by
  unfold Setup.senders Setup.IsWorker
  rw [List.mem_filter, mem_ranks, decide_eq_true_eq]

theorem length_flatMap_senders (proc : Nat) :
    ((setup.senders proc).flatMap setup.filtered).length = setup.total proc := by
  unfold Setup.senders Setup.total
  rw [flatMap_senders, total_eq_length]

theorem length_taken_le (hnodup : taken.Nodup)
    (hsubset : ∀ r ∈ taken, r ∈ setup.senders setup.worldSize) :
    (taken.flatMap setup.filtered).length ≤ setup.total setup.worldSize := by
  obtain ⟨l, hperm, hsub⟩ := hnodup.subperm hsubset
  rw [← length_flatMap_senders, ← total_eq_length, ← total_eq_length,
    ← (hperm.map setup.numFiltered).sum_eq]
  exact (hsub.map setup.numFiltered).sum_le_sum fun _ _ => Nat.zero_le _

/-! ## The invariant -/

/-- What the master has, with the multiples of `taken`. -/
structure Collecting (setup : Setup) (master : Master) (taken : List Nat) : Prop where
  nodup : taken.Nodup
  subset : ∀ r ∈ taken, r ∈ setup.senders setup.worldSize
  outSize : master.outSize = setup.total setup.worldSize
  numReceive : master.numReceive = (setup.senders setup.worldSize).length
  firstFreeId : master.firstFreeId = (taken.flatMap setup.filtered).length
  result : ∃ result, master.result = some result ∧
    result.length = setup.total setup.worldSize ∧
    result.take master.firstFreeId = (taken.flatMap setup.filtered).map some

/-- Where the master is, when it has the counts of all workers before `counted`. -/
def MasterOk (setup : Setup) (s : State) (counted : Nat) (taken : List Nat) : Prop :=
  match s.master.pc with
  | .counts proc => counted = proc ∧ taken = [] ∧ 1 ≤ proc ∧ proc ≤ max 1 setup.worldSize ∧
    s.master.outSize = setup.total proc ∧
    s.master.numReceive = (setup.senders proc).length ∧ s.master.result = none
  | .probe i => setup.worldSize ≤ counted ∧ taken.length = i ∧ Collecting setup s.master taken
  | .recv i source count => setup.worldSize ≤ counted ∧ taken.length = i ∧
    Collecting setup s.master taken ∧ source ∈ setup.senders setup.worldSize ∧ source ∉ taken ∧
    count = setup.numFiltered source ∧ ∃ rest, s.queue source = setup.filtered source :: rest
  | .returned => setup.worldSize ≤ counted ∧ taken ~ setup.senders setup.worldSize ∧
    s.master.outSize = setup.total setup.worldSize ∧
    s.master.result.getD [] = (taken.flatMap setup.filtered).map some
  | .error => False

structure Inv (setup : Setup) (s : State) (counted : Nat) (taken : List Nat) : Prop where
  delivered : Delivered setup s counted taken
  master : MasterOk setup s counted taken

theorem MasterOk.mono {t : State} (h : MasterOk setup s counted taken)
    (hmaster : t.master = s.master)
    (hqueue : ∀ r msg rest, s.queue r = msg :: rest → ∃ rest', t.queue r = msg :: rest') :
    MasterOk setup t counted taken := by
  unfold MasterOk at h ⊢
  rw [hmaster]
  split
  case h_3 i source count hpc =>
    simp only [hpc] at h
    obtain ⟨hall, hi, hcollecting, hsender, htaken, hcount, rest, hrest⟩ := h
    exact ⟨hall, hi, hcollecting, hsender, htaken, hcount, hqueue _ _ _ hrest⟩
  all_goals simp_all

/-! ## The steps of the master -/

variable {proc i source count : Nat} {msg : List Int} {rest : List (List Int)}

theorem recvData_of_room {master : Master} {result : List (Option Int)}
    (hresult : master.result = some result)
    (hroom : master.firstFreeId + msg.length ≤ result.length) :
    ∃ stored, master.recvData i msg.length msg = {
        master with
        pc := .probe (i + 1)
        result := some stored
        firstFreeId := master.firstFreeId + msg.length } ∧
      stored.length = result.length ∧
      stored.take (master.firstFreeId + msg.length) =
        result.take master.firstFreeId ++ msg.map some := by
  have hstore : store result master.firstFreeId msg = some _ := if_pos hroom
  have hblock : master.firstFreeId + (msg.map some).length ≤ result.length := by
    rwa [List.length_map]
  refine ⟨_, ?_, Arrays.length_splice hblock, ?_⟩
  · rw [Master.recvData, if_pos le_rfl, hresult, Option.bind_some, hstore, List.length_map]
  · simpa only [List.length_map] using Arrays.take_splice hblock

theorem Inv.recvCount (h : Inv setup s counted taken) (hpc : s.master.pc = .counts proc)
    (hproc : proc < setup.worldSize) (hm : s.queue proc = msg :: rest)
    (hfits : setup.total setup.worldSize < 2 ^ 31) :
    Inv setup (s.receive proc rest (s.master.recvCount proc msg)) (proc + 1) [] := by
  have hmaster := h.master
  unfold MasterOk at hmaster
  simp only [hpc] at hmaster
  obtain ⟨rfl, rfl, hpos, -, houtSize, hnumReceive, hresult⟩ := hmaster
  obtain ⟨-, rfl⟩ := h.delivered.count_first hm
  refine ⟨h.delivered.receive hm received_count _, ?_⟩
  unfold MasterOk State.receive Master.recvCount Setup.countMsg
  refine ⟨rfl, rfl, by omega, by omega, ?_, ?_, hresult⟩
  · have hle : setup.total (counted + 1) ≤ setup.total setup.worldSize :=
      total_mono (Nat.le_add_left 1 counted) hproc
    rw [total_succ hpos] at hle ⊢
    have hwrap : wrap 32 (s.master.outSize + setup.numFiltered counted) =
        s.master.outSize + setup.numFiltered counted := wrap_of_int (by omega) (by omega)
    simp only [hwrap]
    omega
  · rw [length_senders_succ hpos, hnumReceive]
    simp

theorem Inv.allocate (h : Inv setup s counted taken) (hpc : s.master.pc = .counts proc)
    (hproc : ¬ proc < setup.worldSize) :
    Inv setup { s with master := s.master.allocate } counted [] := by
  have hmaster := h.master
  unfold MasterOk at hmaster
  simp only [hpc] at hmaster
  obtain ⟨rfl, rfl, hpos, hle, houtSize, hnumReceive, hresult⟩ := hmaster
  have hranks : ranks counted = ranks setup.worldSize := by
    unfold ranks
    congr 1
    omega
  unfold Setup.total at houtSize
  unfold Setup.senders at hnumReceive
  rw [hranks] at houtSize hnumReceive
  refine ⟨h.delivered.same, ?_⟩
  rcases eq_or_ne s.master.outSize 0 with hzero | hne
  · have hallocate : s.master.allocate = { s.master with pc := .returned } := if_pos hzero
    have hnil : setup.senders setup.worldSize = [] := by
      rw [List.eq_nil_iff_forall_not_mem]
      intro r hr
      have hle := length_taken_le (List.nodup_singleton r) (List.forall_mem_singleton.mpr hr)
      have hpos := (mem_senders.mp hr).2
      rw [List.flatMap_singleton, length_filtered] at hle
      unfold Setup.total at hle
      omega
    rw [hallocate]
    refine ⟨by omega, by rw [hnil], houtSize, ?_⟩
    simp only [hresult]
    rfl
  · have hallocate : s.master.allocate = _ := if_neg hne
    rw [hallocate]
    refine ⟨by omega, rfl, List.nodup_nil, nofun, houtSize, hnumReceive, rfl, _, rfl, ?_, rfl⟩
    rw [List.length_replicate, houtSize]
    exact Int.toNat_natCast _

theorem Inv.probe (h : Inv setup s counted taken) (hpc : s.master.pc = .probe i)
    (hm : s.queue source = msg :: rest) :
    Inv setup { s with master := { s.master with pc := .recv i source msg.length } }
      counted taken := by
  have hmaster := h.master
  unfold MasterOk at hmaster
  simp only [hpc] at hmaster
  obtain ⟨hall, hi, hcollecting⟩ := hmaster
  obtain ⟨hworker, htaken, rfl, hpos⟩ := h.delivered.data_next hall hm
  refine ⟨h.delivered.same, ?_⟩
  refine ⟨hall, hi, ?_, mem_senders.mpr ⟨hworker, hpos⟩, htaken, length_filtered source, rest, hm⟩
  exact ⟨hcollecting.nodup, hcollecting.subset, hcollecting.outSize, hcollecting.numReceive,
    hcollecting.firstFreeId, hcollecting.result⟩

theorem Inv.recv (h : Inv setup s counted taken) (hpc : s.master.pc = .recv i source count)
    (hm : s.queue source = msg :: rest) :
    Inv setup (s.receive source rest (s.master.recvData i count msg)) counted
      (taken ++ [source]) := by
  have hmaster := h.master
  unfold MasterOk at hmaster
  simp only [hpc] at hmaster
  obtain ⟨hall, hi, hcollecting, hsender, htaken, rfl, rest', hrest⟩ := hmaster
  obtain ⟨rfl, rfl⟩ := List.cons.inj (hm.symm.trans hrest)
  obtain ⟨result, hresult, hlength, htake⟩ := hcollecting.result
  have hnodup : (taken ++ [source]).Nodup :=
    hcollecting.nodup.append (List.nodup_singleton _) (by simpa using htaken)
  have hsubset : ∀ r ∈ taken ++ [source], r ∈ setup.senders setup.worldSize := by
    rw [List.forall_mem_append, List.forall_mem_singleton]
    exact ⟨hcollecting.subset, hsender⟩
  have hflat : (taken ++ [source]).flatMap setup.filtered =
      taken.flatMap setup.filtered ++ setup.filtered source := by
    rw [List.flatMap_append, List.flatMap_singleton]
  -- The block that is written ends where the next one starts, within the array.
  have hroom : s.master.firstFreeId + (setup.filtered source).length ≤ result.length := by
    have hle := length_taken_le hnodup hsubset
    rwa [hflat, List.length_append, ← hcollecting.firstFreeId, ← hlength] at hle
  obtain ⟨stored, hrecv, hstored, hblock⟩ := recvData_of_room (i := i) hresult hroom
  rw [length_filtered] at hrecv
  rw [hrecv]
  refine ⟨h.delivered.receive hm (received_take htaken) _, hall, by simp [hi], ?_⟩
  refine ⟨hnodup, hsubset, hcollecting.outSize, hcollecting.numReceive, ?_, _, rfl,
    hstored.trans hlength, ?_⟩
  · simp only [State.receive]
    rw [hflat, List.length_append, hcollecting.firstFreeId, length_filtered]
  · simp only [State.receive, ← length_filtered]
    rw [hblock, htake, hflat, List.map_append]

theorem Inv.finish (h : Inv setup s counted taken) (hpc : s.master.pc = .probe i)
    (hi : ¬ i < s.master.numReceive) :
    Inv setup { s with master := { s.master with pc := .returned } } counted taken := by
  have hmaster := h.master
  unfold MasterOk at hmaster
  simp only [hpc] at hmaster
  obtain ⟨hall, rfl, hcollecting⟩ := hmaster
  obtain ⟨result, hresult, hlength, htake⟩ := hcollecting.result
  have hperm : taken ~ setup.senders setup.worldSize := by
    refine (hcollecting.nodup.subperm hcollecting.subset).perm_of_length_le ?_
    rw [← hcollecting.numReceive]
    omega
  have hfull : result.length ≤ s.master.firstFreeId := by
    rw [hlength, hcollecting.firstFreeId, ← length_flatMap_senders,
      (hperm.flatMap_right setup.filtered).length_eq]
  rw [List.take_of_length_le hfull] at htake
  refine ⟨h.delivered.same, ?_⟩
  refine ⟨hall, hperm, hcollecting.outSize, ?_⟩
  simp only [hresult]
  exact htake

/-! ## All steps -/

theorem Inv.start : Inv setup initial 1 [] where
  delivered := by
    refine ⟨fun r hr => ?_, fun r hr => ?_, fun _ _ => rfl, nofun, nofun⟩
    · simp [initial, Setup.posted]
    · have hpos := hr.1
      simp [initial, Setup.posted, received]
      omega
  master := by
    refine ⟨rfl, rfl, le_rfl, le_max_left _ _, rfl, rfl, rfl⟩

def Ok (setup : Setup) (s : State) : Prop := ∃ counted taken, Inv setup s counted taken

theorem Ok.step {t : State} {a : Action} (hnum : setup.NoTrap)
    (hfits : setup.total setup.worldSize < 2 ^ 31) (h : Ok setup s) (hstep : Step setup s a t) :
    Ok setup t := by
  obtain ⟨counted, taken, hinv⟩ := h
  have hsend (r : Nat) (msg : List Int) (pc : WorkerPc) :
      MasterOk setup (s.send r msg pc) counted taken := by
    refine hinv.master.mono rfl fun r' msg' rest hrest => ?_
    unfold State.send
    rcases eq_or_ne r' r with rfl | hne
    · exact ⟨rest ++ [msg], by simp [hrest]⟩
    · exact ⟨rest, by simp [Function.update_of_ne hne, hrest]⟩
  cases hstep with
  | sendCount r numMultiples hr hpc hcount =>
    obtain rfl := Option.some.inj (hcount.symm.trans (hnum.numMultiples hr))
    exact ⟨_, _, hinv.delivered.send hr (by rw [hpc]; rfl) (by simp) (by simp), hsend ..⟩
  | sendData r out hr hpc hout =>
    obtain rfl := Option.some.inj (hout.symm.trans (hnum.multiples hr))
    have hpos := hinv.delivered.data r (.inl hpc)
    exact ⟨_, _, hinv.delivered.send hr (by rw [hpc]; rfl) (fun _ => hpos) (by simp), hsend ..⟩
  | countReturns r numMultiples hr hpc hcount =>
    obtain rfl := Option.some.inj (hcount.symm.trans (hnum.numMultiples hr))
    refine ⟨_, _, hinv.delivered.returns ?_ ?_ ?_,
      hinv.master.mono rfl fun _ _ rest h => ⟨rest, h⟩⟩
    · rw [hpc]
      split <;> simp_all [Setup.posted]
    · split <;> simp_all
    · split <;> simp
  | dataReturns r out hr hpc hout =>
    have hpos := hinv.delivered.data r (.inr hpc)
    refine ⟨_, _, hinv.delivered.returns ?_ (by simp) (by simp),
      hinv.master.mono rfl fun _ _ rest h => ⟨rest, h⟩⟩
    rw [hpc]
    exact if_pos hpos
  | trap r hr htrap =>
    rw [hnum.numMultiples hr, hnum.multiples hr] at htrap
    simp at htrap
  | recvCount proc msg rest hpc hproc hm => exact ⟨_, _, hinv.recvCount hpc hproc hm hfits⟩
  | allocate proc hpc hproc => exact ⟨_, _, hinv.allocate hpc hproc⟩
  | probe i source msg rest hpc hi hm => exact ⟨_, _, hinv.probe hpc hm⟩
  | recv i source count msg rest hpc hm => exact ⟨_, _, hinv.recv hpc hm⟩
  | finish i hpc hi => exact ⟨_, _, hinv.finish hpc hi⟩

theorem ok_of_reachable (hnum : setup.NoTrap) (hfits : setup.total setup.worldSize < 2 ^ 31)
    (h : (system setup).Reachable s) : Ok setup s := by
  refine h.invariant (Ok setup) ?_ fun _ _ _ => Ok.step hnum hfits
  rintro s rfl
  exact ⟨_, _, .start⟩

/-! ## Progress -/

/-- The master has returned, and all workers are done. -/
def Finished (setup : Setup) (s : State) : Prop :=
  s.master.pc = .returned ∧ ∀ r, setup.IsWorker r → s.workers r = .done

theorem Delivered.worker_step (h : Delivered setup s counted taken) (hnum : setup.NoTrap) {r : Nat}
    (hr : setup.IsWorker r) (hcounted : r < counted) :
    (∃ t, Step setup s .worker t) ∨
      s.queue r = (if 0 < setup.numFiltered r ∧ r ∉ taken then [setup.filtered r] else []) ∧
        (s.workers r = .done ∨ s.workers r = .dataSent) := by
  have hqueue := h.queue r hr
  have hle := h.le r hr
  have hreceived : received counted taken r = if r ∈ taken then 2 else 1 := by
    unfold received
    rw [if_pos hcounted]
    split <;> rfl
  rw [hreceived] at hqueue hle
  cases hpc : s.workers r with
  | sendCount =>
    rw [hpc] at hle
    simp only [Setup.posted, List.length_nil] at hle
    split at hle <;> omega
  | countSent =>
    refine .inl ⟨_, .countReturns r _ hr hpc (hnum.numMultiples hr) (.inr ?_)⟩
    rw [hqueue, hpc]
    split <;> rfl
  | sendData => exact .inl ⟨_, .sendData r _ hr hpc (hnum.multiples hr)⟩
  | trapped => exact absurd hpc (h.running r)
  | dataSent =>
    refine .inr ⟨?_, .inr rfl⟩
    have hpos := h.data r (.inr hpc)
    rw [hqueue, hpc]
    rcases Classical.em (r ∈ taken) with htaken | htaken <;> simp [Setup.posted, htaken, hpos]
  | done =>
    refine .inr ⟨?_, .inl rfl⟩
    rw [hqueue, hpc]
    rcases Classical.em (r ∈ taken) with htaken | htaken <;>
      rcases Nat.eq_zero_or_pos (setup.numFiltered r) with hzero | hpos <;>
      simp_all [Setup.posted]

theorem Delivered.sendCount (h : Delivered setup s counted []) (hr : setup.IsWorker counted)
    (hqueue : s.queue counted = []) : s.workers counted = .sendCount := by
  have hposted := h.queue counted hr
  have hnone : received counted [] counted = 0 := by simp [received]
  rw [hqueue, hnone, List.drop_zero] at hposted
  cases hworker : s.workers counted with
  | sendCount => rfl
  | trapped => exact absurd hworker (h.running counted)
  | countSent => simp [hworker, Setup.posted] at hposted
  | sendData => simp [hworker, Setup.posted] at hposted
  | dataSent => simp [hworker, Setup.posted] at hposted
  | done =>
    simp only [hworker, Setup.posted] at hposted
    split at hposted <;> cases hposted

theorem nodup_senders (proc : Nat) : (setup.senders proc).Nodup :=
  List.Nodup.filter _ List.nodup_range'

theorem Collecting.exists_not_taken {master : Master} (h : Collecting setup master taken)
    (hi : taken.length < master.numReceive) :
    ∃ r ∈ setup.senders setup.worldSize, r ∉ taken := by
  by_contra hnone
  push Not at hnone
  have hle := ((nodup_senders setup.worldSize).subperm hnone).length_le
  rw [← h.numReceive] at hle
  omega

theorem Inv.progress (h : Inv setup s counted taken) (hnum : setup.NoTrap) :
    Finished setup s ∨ ∃ a t, Step setup s a t := by
  have hmaster := h.master
  unfold MasterOk at hmaster
  cases hpc : s.master.pc with
  | counts proc =>
    right
    simp only [hpc] at hmaster
    obtain ⟨rfl, rfl, hpos, -⟩ := hmaster
    rcases Nat.lt_or_ge counted setup.worldSize with hproc | hproc
    · cases hqueue : s.queue counted with
      | cons msg rest => exact ⟨_, _, .recvCount counted msg rest hpc hproc hqueue⟩
      | nil =>
        have hr : setup.IsWorker counted := ⟨hpos, hproc⟩
        exact ⟨_, _, .sendCount counted _ hr (h.delivered.sendCount hr hqueue)
          (hnum.numMultiples hr)⟩
    · exact ⟨_, _, .allocate counted hpc (by omega)⟩
  | probe i =>
    right
    simp only [hpc] at hmaster
    obtain ⟨hall, rfl, hcollecting⟩ := hmaster
    rcases Nat.lt_or_ge taken.length s.master.numReceive with hi | hi
    · obtain ⟨source, hsender, htaken⟩ := hcollecting.exists_not_taken hi
      obtain ⟨hworker, hpos⟩ := mem_senders.mp hsender
      rcases h.delivered.worker_step hnum hworker (Nat.lt_of_lt_of_le hworker.2 hall) with
        ⟨t, hstep⟩ | ⟨hqueue, -⟩
      · exact ⟨_, t, hstep⟩
      · rw [if_pos ⟨hpos, htaken⟩] at hqueue
        exact ⟨_, _, .probe _ source _ [] hpc hi hqueue⟩
    · exact ⟨_, _, .finish _ hpc (by omega)⟩
  | recv i source count =>
    right
    simp only [hpc] at hmaster
    obtain ⟨-, -, -, -, -, -, rest, hqueue⟩ := hmaster
    exact ⟨_, _, .recv i source count _ rest hpc hqueue⟩
  | returned =>
    simp only [hpc] at hmaster
    obtain ⟨hall, hperm, -⟩ := hmaster
    rcases Classical.em (∀ r, setup.IsWorker r → s.workers r = .done) with hdone | hmore
    · exact .inl ⟨hpc, hdone⟩
    · right
      push Not at hmore
      obtain ⟨r, hr, hnot⟩ := hmore
      rcases h.delivered.worker_step hnum hr (Nat.lt_of_lt_of_le hr.2 hall) with
        ⟨t, hstep⟩ | ⟨hqueue, hdone | hsent⟩
      · exact ⟨_, t, hstep⟩
      · exact absurd hdone hnot
      · rw [if_neg fun hcond =>
          hcond.2 (hperm.symm.subset (mem_senders.mpr ⟨hr, hcond.1⟩))] at hqueue
        exact ⟨_, _, .dataReturns r _ hr hsent (hnum.multiples hr) (.inr hqueue)⟩
  | error => simp only [hpc] at hmaster

/-! ## The result -/

theorem Inv.queue_eq_nil (h : Inv setup s counted taken) (hall : setup.worldSize ≤ counted)
    (hperm : taken ~ setup.senders setup.worldSize) (r : Nat) : s.queue r = [] := by
  cases hqueue : s.queue r with
  | nil => rfl
  | cons msg rest =>
    obtain ⟨hr, htaken, -, hpos⟩ := h.delivered.data_next hall hqueue
    exact absurd (hperm.symm.subset (mem_senders.mpr ⟨hr, hpos⟩)) htaken

/-- Where no worker has to divide the least `int` by `-1` and the total fits an `int`, no state is
stuck, nothing is written out of bounds, and in the end the master has the multiples of the
workers, one worker after the other, and no message is left. -/
theorem collection_correct
    (hnum : setup.num = -1 → ∀ r, setup.IsWorker r → INT_MIN ∉ setup.localArray r)
    (hfits : ((ranks setup.worldSize).map fun r =>
      ((setup.localArray r).filter (setup.num ∣ ·)).length).sum < 2 ^ 31)
    (h : (system setup).Reachable s) :
    s.master.pc ≠ .error ∧ (Finished setup s ∨ ∃ a t, Step setup s a t) ∧
    (s.master.pc = .returned →
      s.master.outSize = ((ranks setup.worldSize).map fun r =>
        ((setup.localArray r).filter (setup.num ∣ ·)).length).sum ∧
      (∃ order, order ~ ranks setup.worldSize ∧
        s.master.result.getD [] =
          (order.flatMap fun r => (setup.localArray r).filter (setup.num ∣ ·)).map some) ∧
      ∀ r, s.queue r = []) := by
  obtain ⟨counted, taken, hinv⟩ := ok_of_reachable hnum hfits h
  refine ⟨fun hpc => ?_, hinv.progress hnum, fun hpc => ?_⟩
  · have hmaster := hinv.master
    simp only [MasterOk, hpc] at hmaster
  · have hmaster := hinv.master
    simp only [MasterOk, hpc] at hmaster
    obtain ⟨hall, hperm, houtSize, hresult⟩ := hmaster
    have hrest : ((ranks setup.worldSize).filter
        fun r => !decide (0 < setup.numFiltered r)).flatMap setup.filtered = [] := by
      rw [List.flatMap_eq_nil_iff]
      intro r hr
      rw [← List.length_eq_zero_iff, length_filtered]
      simpa using (List.mem_filter.mp hr).2
    refine ⟨houtSize, ⟨taken ++ (ranks setup.worldSize).filter
      fun r => !decide (0 < setup.numFiltered r), ?_, ?_⟩, hinv.queue_eq_nil hall hperm⟩
    · exact (hperm.append_right _).trans (List.filter_append_perm _ _)
    · refine hresult.trans (congrArg (List.map some) ?_)
      change _ = List.flatMap setup.filtered _
      rw [List.flatMap_append, hrest, List.append_nil]

/-- A worker with two multiples, and one with none. -/
def twoWorkers : Setup where
  worldSize := 3
  num := 2
  num_ne_zero := by decide
  isInt_num := by decide
  localArray r := if r = 1 then [4, 5, 6] else [7]
  isInt_localArray r := by
    split
    · decide
    · decide
  eager _ _ := false

theorem collection_correct_two : ∃ s : State, (system twoWorkers).Reachable s ∧
    s.master.result = some [some 4, some 6] ∧
    s.master.outSize = ((ranks 3).map fun r =>
      ((twoWorkers.localArray r).filter (twoWorkers.num ∣ ·)).length).sum ∧
    ∀ r, s.queue r = [] := by
  have h0 : (system twoWorkers).Reachable initial := .start rfl
  have h1 := h0.step (.sendCount 1 _ ⟨by decide, by decide⟩ rfl rfl)
  have h2 := h1.step (.recvCount 1 _ _ rfl (by decide) rfl)
  have h3 := h2.step (.countReturns 1 _ ⟨by decide, by decide⟩ rfl rfl (.inr rfl))
  have h4 := h3.step (.sendData 1 _ ⟨by decide, by decide⟩ rfl rfl)
  have h5 := h4.step (.sendCount 2 _ ⟨by decide, by decide⟩ rfl rfl)
  have h6 := h5.step (.recvCount 2 _ _ rfl (by decide) rfl)
  have h7 := h6.step (.allocate 3 rfl (by decide))
  have h8 := h7.step (.probe 0 1 _ _ rfl (by decide) rfl)
  have h9 := h8.step (.recv 0 1 _ _ _ rfl rfl)
  have h10 := h9.step (.finish 1 rfl (by decide))
  obtain ⟨houtSize, -, hqueue⟩ :=
    (collection_correct (by simp [twoWorkers]) (by decide) h10).2.2 rfl
  exact ⟨_, h10, rfl, houtSize, hqueue⟩

/-! ## A division that traps -/

/-- The one division of two ints whose quotient is no int. -/
def leastInt : Setup where
  worldSize := 2
  num := -1
  num_ne_zero := by decide
  isInt_num := by decide
  localArray _ := [INT_MIN]
  isInt_localArray _ := by decide
  eager _ _ := true

/-- The worker divides the least `int` by `-1`, and the master waits for its count. -/
theorem collection_stuck : ∃ s, (system leastInt).Reachable s ∧ ¬ Finished leastInt s ∧
    (system leastInt).Stuck s := by
  have htrap : (system leastInt).Reachable _ :=
    .step (.start rfl) (Step.trap 1 ⟨by decide, by decide⟩ (.inl ⟨rfl, rfl⟩))
  refine ⟨_, htrap, fun hf => absurd hf.1 (by decide), ?_⟩
  have hworker {r : Nat} (hr : leastInt.IsWorker r) : r = 1 := by
    have hlt : r < 2 := hr.2
    have hpos := hr.1
    omega
  intro a t hstep
  cases hstep with
  | sendCount r numMultiples hr hpc => obtain rfl := hworker hr; cases hpc
  | countReturns r numMultiples hr hpc => obtain rfl := hworker hr; cases hpc
  | sendData r out hr hpc => obtain rfl := hworker hr; cases hpc
  | dataReturns r out hr hpc => obtain rfl := hworker hr; cases hpc
  | trap r hr htrap =>
    obtain rfl := hworker hr
    rcases htrap with ⟨hpc, -⟩ | ⟨hpc, -⟩ <;> cases hpc
  | recvCount proc msg rest hpc hproc hm => cases hm
  | allocate proc hpc hproc =>
    cases hpc
    exact hproc (by decide)
  | probe i source msg rest hpc => cases hpc
  | recv i source count msg rest hpc => cases hpc
  | finish i hpc => cases hpc

end Nsds.Filter
