import Mathlib.Algebra.BigOperators.Group.List.Basic
import Mathlib.Data.List.Perm.Subperm
import Nsds.Mpi.Filter.Code

/-!
# The messages of `filter.c`

Counts and multiples have the same tag. The master has the counts of all workers before it
looks for multiples, so that a probe only finds the latter.
-/

namespace Nsds.Filter

open Transition

/-! ## The multiples of one array -/

theorem rem_eq {x num : Int} (hnum : num ≠ 0) (hmin : num = -1 → x ≠ INT_MIN) :
    rem x num = some (x.tmod num) := by
  rw [rem, if_neg]
  rintro (hzero | ⟨hx, hone⟩)
  · exact hnum hzero
  · exact hmin hone hx

theorem foldlM_rem {α : Type} {num : Int} (hnum : num ≠ 0) {array : List Int}
    (hmin : num = -1 → INT_MIN ∉ array) (f : α → Int → α) (a : α) :
    (array.foldlM (fun a x => (rem x num).map fun r => if r = 0 then f a x else a) a) =
      some ((array.filter (num ∣ ·)).foldl f a) := by
  induction array generalizing a with
  | nil => rfl
  | cons x array ih =>
    have hx : rem x num = some (x.tmod num) :=
      rem_eq hnum fun hone heq => hmin hone (heq ▸ List.mem_cons_self)
    have ih := ih fun hone hmem => hmin hone (List.mem_cons_of_mem _ hmem)
    rw [List.foldlM_cons, hx]
    rcases Classical.em (num ∣ x) with hdvd | hdvd
    · simp [ih, hdvd, Int.dvd_iff_tmod_eq_zero.mp hdvd]
    · simp [ih, hdvd, mt Int.dvd_iff_tmod_eq_zero.mpr hdvd]

theorem getMultiples_eq {array : List Int} {num : Int} (hnum : num ≠ 0)
    (hmin : num = -1 → INT_MIN ∉ array) :
    getMultiples array num = some (array.filter (num ∣ ·)) := by
  unfold getMultiples
  rw [foldlM_rem hnum hmin fun result x => result ++ [x], List.foldl_append_eq_append,
    List.nil_append, ← List.flatMap_def, List.flatMap_singleton']

theorem getNumMultiples_eq {array : List Int} {num : Int} (hnum : num ≠ 0)
    (hmin : num = -1 → INT_MIN ∉ array) :
    getNumMultiples array num = some (array.filter (num ∣ ·)).length := by
  unfold getNumMultiples
  rw [foldlM_rem hnum hmin fun count _ => count + 1, List.foldl_add_const, Nat.one_mul,
    Nat.zero_add]

variable {setup : Setup}

/-- No worker has to divide the least `int` by `-1`. -/
def Setup.NoTrap (setup : Setup) : Prop :=
  setup.num = -1 → ∀ r, setup.IsWorker r → INT_MIN ∉ setup.localArray r

/-- The multiples in the array of `r`. -/
def Setup.filtered (setup : Setup) (r : Nat) : List Int :=
  (setup.localArray r).filter (setup.num ∣ ·)

def Setup.numFiltered (setup : Setup) (r : Nat) : Nat := (setup.filtered r).length

theorem length_filtered (r : Nat) : (setup.filtered r).length = setup.numFiltered r := rfl

theorem Setup.NoTrap.numMultiples (h : setup.NoTrap) {r : Nat} (hr : setup.IsWorker r) :
    setup.numMultiples r = some (setup.numFiltered r) :=
  getNumMultiples_eq setup.num_ne_zero fun hone => h hone r hr

theorem Setup.NoTrap.multiples (h : setup.NoTrap) {r : Nat} (hr : setup.IsWorker r) :
    setup.multiples r = some (setup.filtered r) :=
  getMultiples_eq setup.num_ne_zero fun hone => h hone r hr

/-! ## The workers -/

/-- The workers before rank `proc`. -/
def ranks (proc : Nat) : List Nat := List.range' 1 (proc - 1)

theorem mem_ranks {proc r : Nat} : r ∈ ranks proc ↔ 0 < r ∧ r < proc := by
  unfold ranks
  simp only [List.mem_range'_1]
  omega

theorem ranks_succ {proc : Nat} (h : 1 ≤ proc) : ranks (proc + 1) = ranks proc ++ [proc] := by
  obtain ⟨k, rfl⟩ : ∃ k, proc = 1 + k := ⟨proc - 1, by omega⟩
  unfold ranks
  rw [Nat.add_sub_cancel, Nat.add_sub_cancel_left, Nat.add_comm 1 k, List.range'_concat]
  simp [Nat.add_comm]

/-- The number of multiples of the workers before `proc`. -/
def Setup.total (setup : Setup) (proc : Nat) : Nat := ((ranks proc).map setup.numFiltered).sum

/-- The workers before `proc` that have multiples. -/
def Setup.senders (setup : Setup) (proc : Nat) : List Nat :=
  (ranks proc).filter (0 < setup.numFiltered ·)

theorem total_eq_length (ranks : List Nat) :
    (ranks.map setup.numFiltered).sum = (ranks.flatMap setup.filtered).length := by
  rw [List.length_flatMap]
  simp only [length_filtered]

theorem flatMap_senders (ranks : List Nat) :
    (ranks.filter (0 < setup.numFiltered ·)).flatMap setup.filtered =
      ranks.flatMap setup.filtered := by
  induction ranks with
  | nil => rfl
  | cons r ranks ih =>
    rw [List.filter_cons, List.flatMap_cons]
    split
    case isTrue => rw [List.flatMap_cons, ih]
    case isFalse h =>
      have hnil : setup.filtered r = [] := by
        rw [← List.length_eq_zero_iff, length_filtered]
        simpa using h
      rw [ih, hnil, List.nil_append]

/-! ## The messages -/

/-- The first message of `r`. -/
def Setup.countMsg (setup : Setup) (r : Nat) : List Int := [(setup.numFiltered r : Int)]

/-- What `r` has sent so far. -/
def Setup.posted (setup : Setup) (r : Nat) : WorkerPc → List (List Int)
  | .sendCount => []
  | .trapped => []
  | .countSent => [setup.countMsg r]
  | .sendData => [setup.countMsg r]
  | .dataSent => [setup.countMsg r, setup.filtered r]
  | .done =>
    if setup.numFiltered r > 0 then [setup.countMsg r, setup.filtered r] else [setup.countMsg r]

/-- How many messages of `r` were received: its count, and its multiples. -/
def received (counted : Nat) (taken : List Nat) (r : Nat) : Nat :=
  (if r < counted then 1 else 0) + if r ∈ taken then 1 else 0

theorem received_count {proc : Nat} {taken : List Nat} (r : Nat) :
    received (proc + 1) taken r = received proc taken r + if r = proc then 1 else 0 := by
  have hlt : (if r < proc + 1 then 1 else 0) =
      (if r < proc then 1 else 0) + if r = proc then 1 else 0 := by
    split_ifs <;> omega
  unfold received
  omega

theorem received_take {counted source : Nat} {taken : List Nat} (h : source ∉ taken) (r : Nat) :
    received counted (taken ++ [source]) r =
      received counted taken r + if r = source then 1 else 0 := by
  unfold received
  rcases eq_or_ne r source with rfl | hne
  · simp [h]
  · simp [hne]

/-- The queues hold what was sent and not received, the oldest first. -/
structure Delivered (setup : Setup) (s : State) (counted : Nat) (taken : List Nat) : Prop where
  queue : ∀ r, setup.IsWorker r →
    s.queue r = (setup.posted r (s.workers r)).drop (received counted taken r)
  le : ∀ r, setup.IsWorker r → received counted taken r ≤ (setup.posted r (s.workers r)).length
  outside : ∀ r, ¬ setup.IsWorker r → s.queue r = []
  data : ∀ r, s.workers r = .sendData ∨ s.workers r = .dataSent → 0 < setup.numFiltered r
  running : ∀ r, s.workers r ≠ .trapped

variable {s : State} {counted : Nat} {taken : List Nat}

theorem Delivered.same {master : Master} (h : Delivered setup s counted taken) :
    Delivered setup { s with master := master } counted taken :=
  ⟨h.queue, h.le, h.outside, h.data, h.running⟩

theorem Delivered.send (h : Delivered setup s counted taken) {r : Nat} (hr : setup.IsWorker r)
    {msg : List Int} {pc : WorkerPc}
    (hposted : setup.posted r pc = setup.posted r (s.workers r) ++ [msg])
    (hdata : pc = .sendData ∨ pc = .dataSent → 0 < setup.numFiltered r) (hrunning : pc ≠ .trapped) :
    Delivered setup (s.send r msg pc) counted taken := by
  have hle := h.le r hr
  unfold State.send
  refine ⟨fun r' hr' => ?_, fun r' hr' => ?_, fun r' hr' => ?_, fun r' => ?_, fun r' => ?_⟩
  · rcases eq_or_ne r' r with rfl | hne
    · simp only [Function.update_self]
      rw [hposted, List.drop_append_of_le_length hle, h.queue r' hr]
    · simpa only [Function.update_of_ne hne] using h.queue r' hr'
  · rcases eq_or_ne r' r with rfl | hne
    · simp only [Function.update_self]
      rw [hposted, List.length_append]
      omega
    · simpa only [Function.update_of_ne hne] using h.le r' hr'
  · have hne : r' ≠ r := fun heq => hr' (heq ▸ hr)
    simpa only [Function.update_of_ne hne] using h.outside r' hr'
  · rcases eq_or_ne r' r with rfl | hne
    · simpa only [Function.update_self] using hdata
    · simpa only [Function.update_of_ne hne] using h.data r'
  · rcases eq_or_ne r' r with rfl | hne
    · simpa only [Function.update_self] using hrunning
    · simpa only [Function.update_of_ne hne] using h.running r'

theorem Delivered.returns (h : Delivered setup s counted taken) {r : Nat} {pc : WorkerPc}
    (hposted : setup.posted r pc = setup.posted r (s.workers r))
    (hdata : pc = .sendData ∨ pc = .dataSent → 0 < setup.numFiltered r) (hrunning : pc ≠ .trapped) :
    Delivered setup { s with workers := Function.update s.workers r pc } counted taken := by
  have hsame (r' : Nat) : setup.posted r' (Function.update s.workers r pc r') =
      setup.posted r' (s.workers r') := by
    rcases eq_or_ne r' r with rfl | hne
    · rw [Function.update_self, hposted]
    · rw [Function.update_of_ne hne]
  refine ⟨fun r' hr' => ?_, fun r' hr' => ?_, h.outside, fun r' => ?_, fun r' => ?_⟩
  · rw [hsame]
    exact h.queue r' hr'
  · rw [hsame]
    exact h.le r' hr'
  · rcases eq_or_ne r' r with rfl | hne
    · simpa only [Function.update_self] using hdata
    · simpa only [Function.update_of_ne hne] using h.data r'
  · rcases eq_or_ne r' r with rfl | hne
    · simpa only [Function.update_self] using hrunning
    · simpa only [Function.update_of_ne hne] using h.running r'

theorem Delivered.receive (h : Delivered setup s counted taken) {r : Nat} {msg : List Int}
    {rest : List (List Int)} (hm : s.queue r = msg :: rest) {counted' : Nat} {taken' : List Nat}
    (hreceived : ∀ r', received counted' taken' r' =
      received counted taken r' + if r' = r then 1 else 0) (master : Master) :
    Delivered setup (s.receive r rest master) counted' taken' := by
  have hr : setup.IsWorker r := by
    by_contra hr
    rw [h.outside r hr] at hm
    cases hm
  have hdrop := h.queue r hr
  rw [hm] at hdrop
  unfold State.receive
  refine ⟨fun r' hr' => ?_, fun r' hr' => ?_, fun r' hr' => ?_, h.data, h.running⟩
  · rw [hreceived]
    rcases eq_or_ne r' r with rfl | hne
    · simp only [Function.update_self, if_pos]
      rw [← List.drop_drop, ← hdrop]
      rfl
    · simpa only [Function.update_of_ne hne, if_neg hne, Nat.add_zero] using h.queue r' hr'
  · rw [hreceived]
    rcases eq_or_ne r' r with rfl | hne
    · have hlength := congrArg List.length hdrop
      rw [List.length_cons, List.length_drop] at hlength
      simp only [if_pos]
      omega
    · simpa only [if_neg hne, Nat.add_zero] using h.le r' hr'
  · have hne : r' ≠ r := fun heq => hr' (heq ▸ hr)
    simpa only [Function.update_of_ne hne] using h.outside r' hr'

theorem posted_cases {r : Nat} {pc : WorkerPc}
    (hdata : pc = .sendData ∨ pc = .dataSent → 0 < setup.numFiltered r) :
    setup.posted r pc = [] ∨ setup.posted r pc = [setup.countMsg r] ∨
      setup.posted r pc = [setup.countMsg r, setup.filtered r] ∧ 0 < setup.numFiltered r := by
  cases pc with
  | sendCount => exact .inl rfl
  | trapped => exact .inl rfl
  | countSent => exact .inr (.inl rfl)
  | sendData => exact .inr (.inl rfl)
  | dataSent => exact .inr (.inr ⟨rfl, hdata (.inr rfl)⟩)
  | done =>
    simp only [Setup.posted]
    split
    case isTrue h => exact .inr (.inr ⟨rfl, h⟩)
    case isFalse => exact .inr (.inl rfl)

theorem Delivered.count_first (h : Delivered setup s counted []) {msg : List Int}
    {rest : List (List Int)} (hm : s.queue counted = msg :: rest) :
    setup.IsWorker counted ∧ msg = setup.countMsg counted := by
  have hr : setup.IsWorker counted := by
    by_contra hr
    rw [h.outside counted hr] at hm
    cases hm
  have hqueue := h.queue counted hr
  have hnone : received counted [] counted = 0 := by simp [received]
  rw [hm, hnone, List.drop_zero] at hqueue
  refine ⟨hr, ?_⟩
  rcases posted_cases (h.data counted) with hposted | hposted | ⟨hposted, -⟩ <;>
    rw [hposted] at hqueue <;> cases hqueue <;> rfl

theorem Delivered.data_next (h : Delivered setup s counted taken)
    (hcounted : setup.worldSize ≤ counted) {source : Nat} {msg : List Int}
    {rest : List (List Int)} (hm : s.queue source = msg :: rest) :
    setup.IsWorker source ∧ source ∉ taken ∧ msg = setup.filtered source ∧
      0 < setup.numFiltered source := by
  have hr : setup.IsWorker source := by
    by_contra hr
    rw [h.outside source hr] at hm
    cases hm
  have hqueue := h.queue source hr
  have hlt : source < counted := Nat.lt_of_lt_of_le hr.2 hcounted
  rw [hm, received, if_pos hlt] at hqueue
  have hlength : (setup.posted source (s.workers source)).length ≤ 2 := by
    rcases posted_cases (h.data source) with hposted | hposted | ⟨hposted, -⟩ <;> simp [hposted]
  have htaken : source ∉ taken := by
    intro htaken
    rw [if_pos htaken, List.drop_eq_nil_of_le hlength] at hqueue
    cases hqueue
  rw [if_neg htaken] at hqueue
  refine ⟨hr, htaken, ?_⟩
  rcases posted_cases (h.data source) with hposted | hposted | ⟨hposted, hpos⟩ <;>
    rw [hposted] at hqueue
  · cases hqueue
  · cases hqueue
  · cases hqueue
    exact ⟨rfl, hpos⟩

end Nsds.Filter
