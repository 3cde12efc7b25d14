import Mathlib.Data.List.Basic

/-!
# Logs with offsets

A log is a list whose offsets increase. They may have gaps. A reader at an
offset gets a first part of what is left, and goes on after the last one it got.
-/

namespace OffsetLog

variable {α : Type} (offset : α → Nat)

/-- Later entries have higher offsets. -/
def Increasing (l : List α) : Prop := l.Pairwise fun a b => offset a < offset b

/-- The entries from `lo` on. -/
def since (lo : Nat) (l : List α) : List α := l.filter fun a => lo ≤ offset a

/-- The entries from `lo` on and below `hi`. -/
def range (lo hi : Nat) (l : List α) : List α :=
  l.filter fun a => lo ≤ offset a ∧ offset a < hi

variable {offset} {l : List α} {lo mid hi : Nat}

theorem mem_since {a : α} : a ∈ since offset lo l ↔ a ∈ l ∧ lo ≤ offset a := by
  simp [since]

theorem mem_range {a : α} : a ∈ range offset lo hi l ↔ a ∈ l ∧ lo ≤ offset a ∧ offset a < hi := by
  simp [range]

@[simp] theorem range_self : range offset lo lo l = [] := by
  apply List.filter_eq_nil_iff.mpr
  intro a _
  simp

theorem range_eq_filter_since :
    range offset lo hi l = (since offset lo l).filter fun a => offset a < hi := by
  rw [range, since, List.filter_filter]
  congr 1
  funext a
  rw [Bool.decide_and, Bool.and_comm]

theorem Increasing.since (h : Increasing offset l) : Increasing offset (since offset lo l) :=
  h.sublist List.filter_sublist

theorem Increasing.range (h : Increasing offset l) : Increasing offset (range offset lo hi l) :=
  h.sublist List.filter_sublist

theorem Increasing.nodup (h : Increasing offset l) : l.Nodup :=
  h.imp fun hlt heq => by subst heq; omega

theorem Increasing.eq_of_offset_eq (h : Increasing offset l) {a b : α} (ha : a ∈ l) (hb : b ∈ l)
    (heq : offset a = offset b) : a = b := by
  induction l with
  | nil => cases ha
  | cons c l ih =>
    obtain ⟨hc, hl⟩ := List.pairwise_cons.mp h
    rcases List.mem_cons.mp ha with rfl | hal <;> rcases List.mem_cons.mp hb with rfl | hbl
    · rfl
    · have := hc b hbl; omega
    · have := hc a hal; omega
    · exact ih hl hal hbl

theorem Increasing.range_append (h : Increasing offset l) (h1 : lo ≤ mid) (h2 : mid ≤ hi) :
    OffsetLog.range offset lo hi l =
      OffsetLog.range offset lo mid l ++ OffsetLog.range offset mid hi l := by
  induction l with
  | nil => rfl
  | cons a l ih =>
    obtain ⟨ha, hl⟩ := List.pairwise_cons.mp h
    have ih := ih hl
    simp only [OffsetLog.range] at ih ⊢
    rcases Nat.lt_or_ge (offset a) mid with hlt | hge
    · have hmid : ¬ (mid ≤ offset a ∧ offset a < hi) := by omega
      simp only [List.filter_cons, hmid, decide_false, Bool.false_eq_true, if_false]
      split <;> rename_i hlo <;> simp only [decide_eq_true_eq] at hlo
      · rw [if_pos (by simp only [decide_eq_true_eq]; omega), ih, List.cons_append]
      · rw [if_neg (by simp only [decide_eq_true_eq]; omega), ih]
    -- From `a` on, everything is past `mid`.
    · have hnil : (a :: l).filter (fun a => lo ≤ offset a ∧ offset a < mid) = [] := by
        apply List.filter_eq_nil_iff.mpr
        intro b hb
        rcases List.mem_cons.mp hb with rfl | hb
        · simp only [decide_eq_true_eq]; omega
        · have := ha b hb
          simp only [decide_eq_true_eq]; omega
      rw [hnil, List.nil_append]
      apply List.filter_congr
      intro b hb
      have : mid ≤ offset b := by
        rcases List.mem_cons.mp hb with rfl | hb
        · exact hge
        · have := ha b hb; omega
      have hlo : lo ≤ offset b := by omega
      simp [this, hlo]

theorem Increasing.le_last (h : Increasing offset l) {last : α} (hlast : l.getLast? = some last) :
    ∀ a ∈ l, offset a ≤ offset last := by
  obtain ⟨init, rfl⟩ := List.getLast?_eq_some_iff.mp hlast
  intro a ha
  rcases List.mem_append.mp ha with ha | ha
  · exact Nat.le_of_lt ((List.pairwise_append.mp h).2.2 a ha last (by simp))
  · exact Nat.le_of_eq (congrArg offset (List.mem_singleton.mp ha))

theorem Increasing.range_of_batch (h : Increasing offset l) {batch : List α}
    (hb : batch <+: OffsetLog.since offset lo l) {last : α} (hlast : batch.getLast? = some last) :
    OffsetLog.range offset lo (offset last + 1) l = batch := by
  obtain ⟨rest, hrest⟩ := hb
  have hinc : Increasing offset (batch ++ rest) := hrest ▸ h.since
  obtain ⟨hbatch, -, hcross⟩ := List.pairwise_append.mp hinc
  have hmem : last ∈ batch := List.mem_of_getLast? hlast
  rw [range_eq_filter_since, ← hrest, List.filter_append,
    List.filter_eq_self.mpr, List.filter_eq_nil_iff.mpr, List.append_nil]
  · intro a ha
    have := hcross last hmem a ha
    simp only [decide_eq_true_eq]; omega
  · intro a ha
    have := Increasing.le_last hbatch hlast a ha
    simp only [decide_eq_true_eq]; omega

end OffsetLog
