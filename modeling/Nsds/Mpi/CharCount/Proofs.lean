import Mathlib.Algebra.BigOperators.Fin
import Mathlib.Algebra.Order.BigOperators.Group.Finset
import Nsds.Lib.Sum
import Nsds.Mpi.CharCount.Code

/-!
# The letter exchange of `char_count.c`

No receive looks at the sender or at the letter of a pair. What keeps the
letters apart is who owns them: between two letters of one owner, every other
rank has to finish a letter of its own, and for that it needs the first owner.
-/

namespace Nsds.CharCount

open MachineInt Transition

/-! ## Letters and files -/

theorem letter_toNat (i : Fin numLetters) : (letter i).toNat = i.val + 'a'.toNat := by
  revert i
  decide

theorem letter_injective : Function.Injective letter := by
  intro i j h
  have := congrArg Char.toNat h
  rw [letter_toNat, letter_toNat] at this
  exact Fin.ext (by omega)

theorem cIndex_eq_iff (c : Lower) (i : Fin numLetters) : cIndex c = i ↔ c.val = letter i := by
  have ha : 'a'.toNat ≤ c.val.toNat := c.property.1
  have hl := letter_toNat i
  constructor
  · intro h
    have hv := congrArg Fin.val h
    simp only [cIndex] at hv
    apply Char.toNat_inj.mp
    omega
  · intro h
    apply Fin.ext
    rw [h] at ha
    simp only [cIndex, h]
    omega

/-- How often letter `i` is in a file. -/
def occurrences (file : File) (i : Fin numLetters) : Nat :=
  (file.map Subtype.val).count (letter i)

theorem addCount_self (lc : LocalCount) (i : Fin numLetters) (n : Int) :
    addCount lc i n i = { lc i with count := wrap 32 ((lc i).count + n) } :=
  Function.update_self ..

theorem addCount_of_ne {lc : LocalCount} {i j : Fin numLetters} (h : i ≠ j) (n : Int) :
    addCount lc i n j = lc j :=
  Function.update_of_ne (Ne.symm h) ..

theorem countFile_from (file : File) {lc : LocalCount} (j : Fin numLetters)
    (hlc : wrap 32 (lc j).count = (lc j).count) :
    file.foldl (fun lc c => addCount lc (cIndex c) 1) lc j =
      { lc j with count := wrap 32 ((lc j).count + occurrences file j) } := by
  induction file generalizing lc with
  | nil => simp [occurrences, hlc]
  | cons c file ih =>
    have hcons : occurrences (c :: file) j =
        occurrences file j + if cIndex c = j then 1 else 0 := by
      simp only [occurrences, List.map_cons, List.count_cons, beq_iff_eq, cIndex_eq_iff]
    rw [List.foldl_cons, hcons]
    rcases eq_or_ne (cIndex c) j with rfl | hne
    · have hint : wrap 32 (addCount lc (cIndex c) 1 (cIndex c)).count =
          (addCount lc (cIndex c) 1 (cIndex c)).count := by
        simp only [addCount_self, wrap_wrap]
      have hsum : (lc (cIndex c)).count + 1 + occurrences file (cIndex c) =
          (lc (cIndex c)).count + (occurrences file (cIndex c) + 1 : Nat) := by omega
      rw [ih hint]
      simp only [addCount_self, wrap_wrap_add, if_true, hsum]
    · rw [ih (by simpa only [addCount_of_ne hne] using hlc), addCount_of_ne hne, if_neg hne,
        Nat.add_zero]

theorem countFile_spec (file : File) (j : Fin numLetters) :
    countFile file j = { c := letter j, count := wrap 32 (occurrences file j) } := by
  have hzero : wrap 32 (zeroCounts j).count = (zeroCounts j).count := Int.zero_bmod
  rw [countFile, countFile_from file j hzero, zeroCounts, Int.zero_add]

/-- How often a letter comes in all files. -/
def total {worldSize : Nat} (files : Fin worldSize → File) (i : Fin numLetters) : Nat :=
  ∑ q, occurrences (files q) i

theorem occurrences_le_total {worldSize : Nat} (files : Fin worldSize → File) (q : Fin worldSize)
    (i : Fin numLetters) : occurrences (files q) i ≤ total files i :=
  Finset.single_le_sum (f := fun q => occurrences (files q) i) (fun _ _ => Nat.zero_le _)
    (Finset.mem_univ q)

theorem count_countFile {worldSize : Nat} {files : Fin worldSize → File} {i : Fin numLetters}
    (hfits : total files i < 2 ^ 31) (q : Fin worldSize) :
    (countFile (files q) i).count = occurrences (files q) i := by
  have hle := occurrences_le_total files q i
  have hwrap : wrap 32 (occurrences (files q) i) = occurrences (files q) i :=
    wrap_of_int (by omega) (by omega)
  simp only [countFile_spec, hwrap]

/-! ## Owners -/

variable {worldSize : Nat}

theorem receiver_eq_iff (r o : Fin worldSize) (i : Nat) :
    receiver r i = o ↔ i % worldSize = o.val :=
  Fin.ext_iff

/-- Between two letters of one owner there is a letter of every other rank. -/
theorem exists_owned_between {o r : Fin worldSize} {k i : Nat} (hk : receiver o k = o)
    (hi : receiver o i = o) (hlt : k < i) (hr : receiver r i ≠ r) :
    ∃ l, k < l ∧ l < i ∧ receiver r l = r := by
  simp only [receiver_eq_iff, ne_eq] at hk hi hr ⊢
  have hkd := Nat.div_add_mod k worldSize
  have hid := Nat.div_add_mod i worldSize
  have ho := o.isLt
  have hrn := r.isLt
  have hdiv : k / worldSize + 1 ≤ i / worldSize := by
    by_contra h
    have : worldSize * (i / worldSize) ≤ worldSize * (k / worldSize) :=
      Nat.mul_le_mul_left _ (by omega)
    omega
  have hmul : worldSize * (k / worldSize) + worldSize ≤ worldSize * (i / worldSize) := by
    rw [← Nat.mul_succ]
    exact Nat.mul_le_mul_left _ hdiv
  rcases Nat.lt_or_ge o.val r.val with hor | hor
  · exact ⟨worldSize * (k / worldSize) + r.val, by omega, by omega, by
      rw [Nat.mul_add_mod, Nat.mod_eq_of_lt hrn]⟩
  · exact ⟨worldSize * (k / worldSize + 1) + r.val, by rw [Nat.mul_succ]; omega,
      by rw [Nat.mul_succ]; omega, by rw [Nat.mul_add_mod, Nat.mod_eq_of_lt hrn]⟩

/-! ## The state, field by field -/

section

variable (s : State worldSize) (r source : Fin worldSize) (i : Fin numLetters) (m : CharIntPair)
  (rest : List CharIntPair)

@[simp] theorem isend_ranks :
    (s.isend r i).ranks = Function.update s.ranks r { s.ranks r with i := i + 1 } := rfl

@[simp] theorem recv_ranks :
    (s.recv r source i m rest).ranks = Function.update s.ranks r { s.ranks r with
      p := (s.ranks r).p + 1, localCount := addCount (s.ranks r).localCount i m.count } := rfl

@[simp] theorem next_ranks :
    (s.next r i).ranks = Function.update s.ranks r { s.ranks r with i := i + 1, p := 0 } := rfl

@[simp] theorem next_pending : (s.next r i).pending = s.pending := rfl

theorem isend_pending (q o : Fin worldSize) :
    (s.isend r i).pending q o = if q = r ∧ o = receiver r i
      then s.pending r o ++ [(s.ranks r).localCount i] else s.pending q o := by
  rcases eq_or_ne q r with rfl | hq
  · rcases eq_or_ne o (receiver q i) with rfl | ho
    · simp [State.isend, State.setPending, State.setRank]
    · simp [State.isend, State.setPending, State.setRank, ho]
  · simp [State.isend, State.setPending, State.setRank, hq]

theorem recv_pending (q o : Fin worldSize) :
    (s.recv r source i m rest).pending q o =
      if q = source ∧ o = r then rest else s.pending q o := by
  rcases eq_or_ne q source with rfl | hq
  · rcases eq_or_ne o r with rfl | ho
    · simp [State.recv, State.setPending, State.setRank]
    · simp [State.recv, State.setPending, State.setRank, ho]
  · simp [State.recv, State.setPending, State.setRank, hq]

@[simp] theorem recv_i (q : Fin worldSize) :
    ((s.recv r source i m rest).ranks q).i = (s.ranks q).i := by
  rcases eq_or_ne q r with rfl | hq
  · simp
  · simp [hq]

theorem recv_localCount_self :
    ((s.recv r source i m rest).ranks r).localCount =
      addCount (s.ranks r).localCount i m.count := by simp

theorem recv_localCount_of_ne {q : Fin worldSize} (hq : q ≠ r) :
    ((s.recv r source i m rest).ranks q).localCount = (s.ranks q).localCount := by simp [hq]

@[simp] theorem isend_localCount (q : Fin worldSize) :
    ((s.isend r i).ranks q).localCount = (s.ranks q).localCount := by
  rcases eq_or_ne q r with rfl | hq
  · simp
  · simp [hq]

@[simp] theorem next_localCount (q : Fin worldSize) :
    ((s.next r i).ranks q).localCount = (s.ranks q).localCount := by
  rcases eq_or_ne q r with rfl | hq
  · simp
  · simp [hq]

variable {s r i}

theorem isend_le (hi : (s.ranks r).i = i) (q : Fin worldSize) :
    (s.ranks q).i ≤ ((s.isend r i).ranks q).i := by
  rcases eq_or_ne q r with rfl | hq
  · simp [hi]
  · simp [hq]

theorem next_le (hi : (s.ranks r).i = i) (q : Fin worldSize) :
    (s.ranks q).i ≤ ((s.next r i).ranks q).i := by
  rcases eq_or_ne q r with rfl | hq
  · simp [hi]
  · simp [hq]

end

/-! ## What an owner still has to get -/

/-- The letter that owner `o` is at, or the next one it will be at. -/
def Current (s : State worldSize) (o : Fin worldSize) (j : Nat) : Prop :=
  receiver o j = o ∧ (s.ranks o).i ≤ j ∧
    ∀ k, receiver o k = o → (s.ranks o).i ≤ k → j ≤ k

/-- The weight of the pairs for letter `j` in a queue. -/
def tally (w : CharIntPair → Nat) (j : Fin numLetters) (ms : List CharIntPair) : Nat :=
  ((ms.filter (·.c = letter j)).map w).sum

/-- The weight of the pairs for letter `j` that owner `o` did not receive: those
on their way, and those that were not even sent. -/
def outstanding (files : Fin worldSize → File) (s : State worldSize) (w : CharIntPair → Nat)
    (o : Fin worldSize) (j : Fin numLetters) : Nat :=
  ∑ q, (tally w j (s.pending q o) +
    if q ≠ o ∧ (s.ranks q).i ≤ j then w (countFile (files q) j) else 0)

/-- How many pairs for letter `j` its owner `o` received. -/
def got (s : State worldSize) (o : Fin worldSize) (j : Fin numLetters) : Nat :=
  if (s.ranks o).i = j then (s.ranks o).p else if j < (s.ranks o).i then worldSize - 1 else 0

/-- What a rank knows by itself. -/
structure RankOk (files : Fin worldSize → File) (r : Fin worldSize) (rank : Rank) : Prop where
  le : rank.i ≤ numLetters
  fresh : receiver r rank.i ≠ r → rank.p = 0
  own : ∀ j : Fin numLetters, receiver r j ≠ r → rank.localCount j = countFile (files r) j
  chars : ∀ j : Fin numLetters, (rank.localCount j).c = letter j
  int : ∀ j : Fin numLetters, (rank.localCount j).count < 2 ^ 31

/-- What every rank has done, and what is on the way between two of them. -/
structure Inv (files : Fin worldSize → File) (s : State worldSize) : Prop where
  rank : ∀ r, RankOk files r (s.ranks r)
  passed : ∀ (o q : Fin worldSize) (j : Nat),
    receiver o j = o → j < (s.ranks o).i → j < (s.ranks q).i
  pending : ∀ (q o : Fin worldSize), ∀ m ∈ s.pending q o,
    ∃ j : Fin numLetters, m = countFile (files q) j ∧ Current s o j
  arrived : ∀ (o : Fin worldSize) (j : Fin numLetters), receiver o j = o →
    got s o j + outstanding files s (fun _ => 1) o j = worldSize - 1
  summed : ∀ (o : Fin worldSize) (j : Fin numLetters), receiver o j = o → total files j < 2 ^ 31 →
    0 ≤ ((s.ranks o).localCount j).count ∧
    ((s.ranks o).localCount j).count + outstanding files s (·.count.toNat) o j = total files j

/-! ## The tally of a queue -/

section

variable (w : CharIntPair → Nat) (j : Fin numLetters)

@[simp] theorem tally_nil : tally w j [] = 0 := rfl

theorem tally_append (ms ms' : List CharIntPair) :
    tally w j (ms ++ ms') = tally w j ms + tally w j ms' := by
  simp [tally]

theorem tally_cons (m : CharIntPair) (ms : List CharIntPair) :
    tally w j (m :: ms) = tally w j ms + if m.c = letter j then w m else 0 := by
  unfold tally
  rw [List.filter_cons]
  simp only [decide_eq_true_eq]
  split
  · rw [List.map_cons, List.sum_cons, Nat.add_comm]
  · rfl

theorem not_mem_of_tally_one {ms : List CharIntPair} (h : tally (fun _ => 1) j ms = 0) :
    ∀ m ∈ ms, m.c ≠ letter j := by
  induction ms with
  | nil => simp
  | cons m ms ih =>
    rw [tally_cons] at h
    split at h
    · omega
    · intro x hx
      rcases List.mem_cons.mp hx with rfl | hx
      · assumption
      · exact ih (by omega) x hx

end

/-! ## One step -/

variable {files : Fin worldSize → File} {s : State worldSize}

theorem Inv.pending_eq (h : Inv files s) {r source : Fin worldSize} {i : Fin numLetters}
    (hi : (s.ranks r).i = i) (hr : receiver r i = r) {m : CharIntPair}
    (hm : m ∈ s.pending source r) : m = countFile (files source) i := by
  obtain ⟨j, hc, -, hle, hmin⟩ := h.pending source r m hm
  have hj := hmin i hr (by omega)
  have : j = i := Fin.ext (by omega)
  rw [hc, this]

theorem Inv.char_of_pending (h : Inv files s) {r source : Fin worldSize} {i : Fin numLetters}
    (hi : (s.ranks r).i = i) (hr : receiver r i = r) {m : CharIntPair}
    (hm : m ∈ s.pending source r) : m.c = letter i := by
  rw [h.pending_eq hi hr hm, countFile_spec]

theorem isend_outstanding (h : Inv files s) {r : Fin worldSize} {i : Fin numLetters}
    (hi : (s.ranks r).i = i) (hr : receiver r i ≠ r) (w : CharIntPair → Nat)
    (o : Fin worldSize) (j : Fin numLetters) (ho : receiver o j = o) :
    outstanding files (s.isend r i) w o j = outstanding files s w o j := by
  apply Finset.sum_congr rfl
  intro q _
  rcases eq_or_ne q r with rfl | hq
  · rw [isend_pending]
    have hm := (h.rank q).own i hr
    rcases eq_or_ne j i with rfl | hj
    · -- The pair for this letter goes from "to be sent" to "on its way".
      have hoq : o = receiver q j := ho.symm
      have hqo : q ≠ o := fun e => hr (by rw [e]; exact ho)
      rw [if_pos ⟨rfl, hoq⟩, tally_append, tally_cons, hm, countFile_spec]
      simp [hi, hqo]
    · have hne : i.val ≠ j.val := fun e => hj (Fin.ext e.symm)
      have htally : tally w j (if q = q ∧ o = receiver q i
          then s.pending q o ++ [(s.ranks q).localCount i] else s.pending q o) =
          tally w j (s.pending q o) := by
        split
        · rw [tally_append, tally_cons, hm, countFile_spec]
          simp [letter_injective.ne (Ne.symm hj)]
        · rfl
      rw [htally]
      simp only [isend_ranks, Function.update_self, hi]
      congr 1
      apply if_congr _ rfl rfl
      constructor <;> rintro ⟨h1, h2⟩ <;> exact ⟨h1, by omega⟩
  · rw [isend_pending, if_neg (by simp [hq])]
    simp [hq]

theorem recv_outstanding (h : Inv files s) {r source : Fin worldSize} {i : Fin numLetters}
    (hi : (s.ranks r).i = i) (hr : receiver r i = r) {m : CharIntPair} {rest : List CharIntPair}
    (hm : s.pending source r = m :: rest) (w : CharIntPair → Nat) (o : Fin worldSize)
    (j : Fin numLetters) :
    outstanding files s w o j = outstanding files (s.recv r source i m rest) w o j +
      if o = r ∧ j = i then w m else 0 := by
  have hmc : m.c = letter i := h.char_of_pending hi hr (by rw [hm]; exact List.mem_cons_self)
  unfold outstanding
  simp only [recv_i]
  apply Sum.sum_eq_add source
  · rcases eq_or_ne o r with rfl | ho
    · have hrest : (s.recv o source i m rest).pending source o = rest := by simp [recv_pending]
      rw [hrest, hm, tally_cons, hmc]
      rcases eq_or_ne j i with rfl | hj
      · simp; omega
      · simp [hj, letter_injective.ne (Ne.symm hj)]
    · simp [recv_pending, ho]
  · intro q hq
    simp [recv_pending, hq]

theorem next_outstanding {r : Fin worldSize} {i : Fin numLetters} (hi : (s.ranks r).i = i)
    (hr : receiver r i = r) (w : CharIntPair → Nat) (o : Fin worldSize) (j : Fin numLetters)
    (ho : receiver o j = o) :
    outstanding files (s.next r i) w o j = outstanding files s w o j := by
  apply Finset.sum_congr rfl
  intro q _
  rcases eq_or_ne q r with rfl | hq
  · simp only [next_pending, next_ranks, Function.update_self, hi]
    congr 1
    apply if_congr _ rfl rfl
    constructor
    · rintro ⟨h1, h2⟩; exact ⟨h1, by omega⟩
    · rintro ⟨h1, h2⟩
      have : i.val ≠ j.val := by
        intro e
        rw [← e] at ho
        exact h1 (hr.symm.trans ho)
      exact ⟨h1, by omega⟩
  · simp [hq]

theorem Current.isend {o r : Fin worldSize} {i j : Fin numLetters} (h : Current s o j)
    (hi : (s.ranks r).i = i) (hr : receiver r i ≠ r) : Current (s.isend r i) o j := by
  obtain ⟨ho, hle, hmin⟩ := h
  refine ⟨ho, ?_, fun k hk hik => hmin k hk ((isend_le hi o).trans hik)⟩
  rcases eq_or_ne o r with rfl | hor
  · have : i.val ≠ j := fun e => hr (by rw [e]; exact ho)
    simp
    omega
  · simpa [hor] using hle

theorem Inv.current_receiver (h : Inv files s) {r : Fin worldSize} {i : Fin numLetters}
    (hi : (s.ranks r).i = i) (hr : receiver r i ≠ r) : Current s (receiver r i) i := by
  refine ⟨rfl, ?_, ?_⟩
  · by_contra hlt
    have := h.passed (receiver r i) r i rfl (by omega)
    omega
  · intro k hk hik
    by_contra hlt
    obtain ⟨l, hkl, hli, hl⟩ := exists_owned_between hk rfl (by omega) hr
    have := h.passed r (receiver r i) l hl (by omega)
    omega

theorem isend_inv (h : Inv files s) {r : Fin worldSize} {i : Fin numLetters}
    (hi : (s.ranks r).i = i) (hr : receiver r i ≠ r) : Inv files (s.isend r i) := by
  have hp : (s.ranks r).p = 0 := (h.rank r).fresh (by rw [hi]; exact hr)
  constructor
  case rank =>
    refine (Function.forall_update_iff s.ranks (RankOk files)).mpr ⟨?_, fun q _ => h.rank q⟩
    exact ⟨i.isLt, fun _ => hp, (h.rank r).own, (h.rank r).chars, (h.rank r).int⟩
  case passed =>
    intro o q j ho hj
    refine lt_of_lt_of_le (h.passed o q j ho ?_) (isend_le hi q)
    rcases eq_or_ne o r with rfl | hor
    · have : i.val ≠ j := fun e => hr (by rw [e]; exact ho)
      simp at hj; omega
    · simpa [hor] using hj
  case pending =>
    intro q o m hm
    rw [isend_pending] at hm
    split at hm
    case isFalse =>
      obtain ⟨j, hc, hj⟩ := h.pending q o m hm
      exact ⟨j, hc, hj.isend hi hr⟩
    case isTrue hq =>
      obtain ⟨rfl, rfl⟩ := hq
      rcases List.mem_append.mp hm with hm | hm
      · obtain ⟨j, hc, hj⟩ := h.pending _ _ m hm
        exact ⟨j, hc, hj.isend hi hr⟩
      · rw [List.mem_singleton] at hm
        subst hm
        exact ⟨i, (h.rank _).own i hr, (h.current_receiver hi hr).isend hi hr⟩
  case arrived =>
    intro o j ho
    rw [isend_outstanding h hi hr _ o j ho, ← h.arrived o j ho]
    congr 1
    rcases eq_or_ne o r with rfl | hor
    · have : i.val ≠ j.val := fun e => hr (by rw [e]; exact ho)
      simp only [got, isend_ranks, Function.update_self, hi, hp]
      split_ifs <;> omega
    · simp [got, hor]
  case summed =>
    intro o j ho hfits
    rw [isend_outstanding h hi hr _ o j ho, isend_localCount]
    exact h.summed o j ho hfits

theorem recv_inv (h : Inv files s) {r source : Fin worldSize} {i : Fin numLetters}
    (hi : (s.ranks r).i = i) (hr : receiver r i = r) {m : CharIntPair} {rest : List CharIntPair}
    (hm : s.pending source r = m :: rest) : Inv files (s.recv r source i m rest) := by
  constructor
  case rank =>
    refine (Function.forall_update_iff s.ranks (RankOk files)).mpr ⟨?_, fun q _ => h.rank q⟩
    constructor
    case le => exact (h.rank r).le
    case fresh => exact fun hne => absurd (hi ▸ hr) hne
    case own =>
      intro j hj
      have hne : i ≠ j := by rintro rfl; exact hj hr
      exact (addCount_of_ne hne _).trans ((h.rank r).own j hj)
    case chars =>
      intro j
      rcases eq_or_ne i j with rfl | hne
      · exact (congrArg CharIntPair.c (addCount_self ..)).trans ((h.rank r).chars i)
      · exact (congrArg CharIntPair.c (addCount_of_ne hne _)).trans ((h.rank r).chars j)
    case int =>
      intro j
      rcases eq_or_ne i j with rfl | hne
      · simpa only [addCount_self] using wrap_int_lt _
      · simpa only [addCount_of_ne hne] using (h.rank r).int j
  case passed => intro o q j; rw [recv_i, recv_i]; exact h.passed o q j
  case pending =>
    intro q o x hx
    have hold : x ∈ s.pending q o := by
      rw [recv_pending] at hx
      split at hx
      case isTrue hq => obtain ⟨rfl, rfl⟩ := hq; rw [hm]; exact List.mem_cons_of_mem _ hx
      case isFalse => exact hx
    obtain ⟨j, hc, hj⟩ := h.pending q o x hold
    refine ⟨j, hc, ?_⟩
    simpa only [Current, recv_i] using hj
  case arrived =>
    intro o j ho
    rw [← h.arrived o j ho, recv_outstanding h hi hr hm]
    rcases eq_or_ne o r with rfl | hor
    · rcases eq_or_ne j i with rfl | hj
      · simp [got, hi]
        omega
      · have : i.val ≠ j.val := fun e => hj (Fin.ext e.symm)
        simp [got, hi, hj, this]
    · simp [got, hor]
  case summed =>
    intro o j ho hfits
    obtain ⟨hnonneg, hsum⟩ := h.summed o j ho hfits
    rw [recv_outstanding h hi hr hm] at hsum
    rcases eq_or_ne o r with rfl | hor
    · rcases eq_or_ne j i with rfl | hj
      · have hcount : m.count = occurrences (files source) j := by
          have hmem : m ∈ s.pending source o := by rw [hm]; exact List.mem_cons_self
          rw [h.pending_eq hi hr hmem, count_countFile hfits]
        simp only [and_self, if_true] at hsum
        -- What is added was outstanding, so that the sum is not above the total.
        have hwrap : wrap 32 (((s.ranks o).localCount j).count + m.count) =
            ((s.ranks o).localCount j).count + m.count := wrap_of_int (by omega) (by omega)
        rw [recv_localCount_self, addCount_self, hwrap]
        constructor <;> dsimp only <;> omega
      · simp only [hj, and_false, if_false, Nat.add_zero] at hsum
        rw [recv_localCount_self, addCount_of_ne (Ne.symm hj)]
        exact ⟨hnonneg, hsum⟩
    · simp only [hor, false_and, if_false, Nat.add_zero] at hsum
      rw [recv_localCount_of_ne _ _ _ _ _ _ hor]
      exact ⟨hnonneg, hsum⟩

theorem Inv.all_arrived (h : Inv files s) {r : Fin worldSize} {i : Fin numLetters}
    (hi : (s.ranks r).i = i) (hr : receiver r i = r) (hp : ¬ (s.ranks r).p < worldSize - 1) :
    ∀ q, s.pending q r = [] ∧ (q ≠ r → i.val < (s.ranks q).i) := by
  have harr := h.arrived r i hr
  simp only [got, hi, if_true] at harr
  have hzero : outstanding files s (fun _ => 1) r i = 0 := by omega
  intro q
  have hq := Sum.eq_zero_of_sum_eq_zero hzero q
  have htally : tally (fun _ => 1) i (s.pending q r) = 0 := by omega
  constructor
  · apply List.eq_nil_iff_forall_not_mem.mpr
    intro m hm
    exact not_mem_of_tally_one i htally m hm (h.char_of_pending hi hr hm)
  · intro hqr
    by_contra hlt
    simp [hqr, Nat.not_lt.mp hlt] at hq

theorem next_inv (h : Inv files s) {r : Fin worldSize} {i : Fin numLetters}
    (hi : (s.ranks r).i = i) (hr : receiver r i = r) (hp : ¬ (s.ranks r).p < worldSize - 1) :
    Inv files (s.next r i) := by
  have hall := h.all_arrived hi hr hp
  constructor
  case rank =>
    refine (Function.forall_update_iff s.ranks (RankOk files)).mpr ⟨?_, fun q _ => h.rank q⟩
    exact ⟨i.isLt, fun _ => rfl, (h.rank r).own, (h.rank r).chars, (h.rank r).int⟩
  case passed =>
    intro o q j ho hj
    rcases eq_or_ne o r with rfl | hor
    · simp only [next_ranks, Function.update_self] at hj
      rcases Nat.lt_succ_iff_lt_or_eq.mp hj with hj | rfl
      · exact lt_of_lt_of_le (h.passed o q j ho (by omega)) (next_le hi q)
      · rcases eq_or_ne q o with rfl | hq
        · simp
        · simpa [hq] using (hall q).2 hq
    · exact lt_of_lt_of_le (h.passed o q j ho (by simpa [hor] using hj)) (next_le hi q)
  case pending =>
    intro q o m hm
    rw [next_pending] at hm
    have hor : o ≠ r := by rintro rfl; rw [(hall q).1] at hm; simp at hm
    obtain ⟨j, hc, hj⟩ := h.pending q o m hm
    refine ⟨j, hc, ?_⟩
    simpa [Current, hor] using hj
  case arrived =>
    intro o j ho
    have harr := h.arrived o j ho
    rw [next_outstanding hi hr _ o j ho]
    rcases eq_or_ne o r with rfl | hor
    · have hi' := h.arrived o i hr
      simp only [got, hi, if_true, next_ranks, Function.update_self] at harr hi' ⊢
      rcases eq_or_ne j i with rfl | hj
      · simp at harr ⊢; omega
      · have hne : i.val ≠ j.val := fun e => hj (Fin.ext e.symm)
        split_ifs at harr ⊢ <;> omega
    · simpa [got, hor] using harr
  case summed =>
    intro o j ho hfits
    rw [next_outstanding hi hr _ o j ho, next_localCount]
    exact h.summed o j ho hfits

theorem step_inv (h : Inv files s) {a : Action worldSize} {t : State worldSize}
    (hs : Step s a t) : Inv files t := by
  cases hs with
  | isend r i hi hr => exact isend_inv h hi hr
  | recv r source i hi hr hp m rest hm => exact recv_inv h hi hr hm
  | next r i hi hr hp => exact next_inv h hi hr hp

theorem initial_inv (files : Fin worldSize → File) : Inv files (initial files) := by
  have hsum : ∀ (w : CharIntPair → Nat) o j, outstanding files (initial files) w o j =
      ∑ q, if q ≠ o then w (countFile (files q) j) else 0 := by
    intro w o j
    simp [outstanding, initial]
  constructor
  case rank =>
    refine fun r => ⟨Nat.zero_le _, fun _ => rfl, fun _ _ => rfl, fun j => ?_, fun j => ?_⟩
    · simp [initial, countFile_spec]
    · simpa only [initial, countFile_spec] using wrap_int_lt _
  case passed => intro o q j _ hj; simp [initial] at hj
  case pending => intro q o m hm; simp [initial] at hm
  case arrived =>
    intro o j _
    have hcard : ∑ q : Fin worldSize, (if q ≠ o then 1 else 0) = worldSize - 1 := by
      rw [← Finset.card_filter, Finset.filter_ne' Finset.univ o]
      simp
    rw [hsum, hcard]
    simp [got, initial]
  case summed =>
    intro o j _ hfits
    have hcount : (((initial files).ranks o).localCount j).count = occurrences (files o) j :=
      count_countFile hfits o
    have htotal : total files j =
        (∑ q, if q ≠ o then (countFile (files q) j).count.toNat else 0) + occurrences (files o) j :=
      Sum.sum_eq_add o _ (by simp) fun q hq => by simp [hq, count_countFile hfits q]
    rw [hsum, hcount, htotal]
    omega

theorem reachable_inv (h : (system files).Reachable s) : Inv files s :=
  h.invariant (Inv files) (by rintro _ rfl; exact initial_inv files) fun _ _ _ h hs => step_inv h hs

/-! ## The exchange as a whole -/

/-- The rank at the lowest letter can always move. -/
theorem Inv.not_stuck (h : Inv files s) (hf : ¬ s.allFinished) : ∃ a t, Step s a t := by
  obtain ⟨r0, hr0⟩ := not_forall.mp hf
  have hne : (Finset.univ : Finset (Fin worldSize)).Nonempty := ⟨r0, Finset.mem_univ _⟩
  obtain ⟨r, -, hmin⟩ := Finset.exists_min_image Finset.univ (fun q => (s.ranks q).i) hne
  have hlt : (s.ranks r).i < numLetters :=
    lt_of_le_of_lt (hmin r0 (Finset.mem_univ _)) (lt_of_le_of_ne (h.rank r0).le hr0)
  obtain ⟨i, hi⟩ : ∃ i : Fin numLetters, (s.ranks r).i = i := ⟨⟨_, hlt⟩, rfl⟩
  by_cases hr : receiver r i = r
  case neg => exact ⟨_, _, .isend r i hi hr⟩
  by_cases hp : (s.ranks r).p < worldSize - 1
  case neg => exact ⟨_, _, .next r i hi hr hp⟩
  -- Not all pairs for its letter arrived yet. Either one is on its way, or its sender can send it.
  have harr := h.arrived r i hr
  simp only [got, hi, if_true] at harr
  have hpos : outstanding files s (fun _ => 1) r i ≠ 0 := by omega
  obtain ⟨q, -, hq⟩ := Finset.exists_ne_zero_of_sum_ne_zero hpos
  by_cases hpend : s.pending q r = []
  case neg =>
    obtain ⟨m, rest, hm⟩ := List.exists_cons_of_ne_nil hpend
    exact ⟨_, _, .recv r q i hi hr hp m rest hm⟩
  rw [hpend] at hq
  simp only [tally_nil, Nat.zero_add, ne_eq, ite_eq_right_iff, Nat.one_ne_zero, imp_false,
    not_not] at hq
  have hqi : (s.ranks q).i = i := le_antisymm hq.2 (hi ▸ hmin q (Finset.mem_univ _))
  refine ⟨_, _, .isend q i hqi ?_⟩
  intro hown
  exact hq.1 (hown.symm.trans hr)

theorem Inv.finished_outstanding (h : Inv files s) (hf : s.allFinished) (o : Fin worldSize) :
    (∀ q, s.pending q o = []) ∧ ∀ w j, outstanding files s w o j = 0 := by
  have hpend : ∀ q, s.pending q o = [] := by
    intro q
    apply List.eq_nil_iff_forall_not_mem.mpr
    intro m hm
    obtain ⟨j, -, -, hle, -⟩ := h.pending q o m hm
    have := hf o
    unfold Rank.finished at this
    omega
  refine ⟨hpend, fun w j => Finset.sum_eq_zero fun q _ => ?_⟩
  have := hf q
  unfold Rank.finished at this
  rw [hpend, if_neg (by omega)]
  rfl

theorem count_le_total (h : (system files).Reachable s) (r : Fin worldSize) (j : Fin numLetters)
    (hfits : total files j < 2 ^ 31) :
    0 ≤ ((s.ranks r).localCount j).count ∧ ((s.ranks r).localCount j).count ≤ total files j := by
  have hinv := reachable_inv h
  rcases eq_or_ne (receiver r j) r with hr | hr
  · have := hinv.summed r j hr hfits
    omega
  · have hle := occurrences_le_total files r j
    rw [(hinv.rank r).own j hr, count_countFile hfits]
    omega

theorem count_eq_total (h : (system files).Reachable s) (hf : s.allFinished) {o : Fin worldSize}
    {i : Fin numLetters} (ho : receiver o i = o) (hfits : total files i < 2 ^ 31) :
    (s.ranks o).localCount i = ⟨letter i, total files i⟩ := by
  have hinv := reachable_inv h
  obtain ⟨-, hsum⟩ := hinv.summed o i ho hfits
  rw [(hinv.finished_outstanding hf o).2, Nat.cast_zero, Int.add_zero] at hsum
  rw [← hsum, ← (hinv.rank o).chars i]

theorem allFinished_of_stuck (h : (system files).Reachable s) (hstuck : (system files).Stuck s) :
    s.allFinished := by
  by_contra hf
  obtain ⟨a, t, hstep⟩ := (reachable_inv h).not_stuck hf
  exact hstuck a t hstep

end Nsds.CharCount
