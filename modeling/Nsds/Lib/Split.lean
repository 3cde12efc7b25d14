import Mathlib.Data.List.DropRight
import Mathlib.Data.List.Infix

/-!
# Splitting at a separator

A split keeps the empty pieces at the front and in the middle, and drops those at the end.
-/

namespace Split

variable {α : Type} [DecidableEq α] {sep : α}

/-- What has no separator is one piece, even if it is empty. -/
def split (sep : α) (l : List α) : List (List α) :=
  if sep ∈ l then (l.splitOn sep).rdropWhile List.isEmpty else [l]

/-- The pieces that are not empty. -/
def words (sep : α) (l : List α) : List (List α) := (l.splitOn sep).filter (· ≠ [])

omit [DecidableEq α] in
theorem filter_rdropWhile_isEmpty (pieces : List (List α)) :
    (pieces.rdropWhile List.isEmpty).filter (· ≠ []) = pieces.filter (· ≠ []) := by
  induction pieces using List.reverseRecOn with
  | nil => rfl
  | append_singleton pieces piece ih =>
    by_cases hpiece : piece = []
    · rw [List.rdropWhile_concat_pos _ _ _ (by simp [hpiece]), ih, List.filter_append]
      simp [hpiece]
    · rw [List.rdropWhile_concat_neg _ _ _ (by simp [hpiece])]

theorem filter_split (l : List α) : (split sep l).filter (· ≠ []) = words sep l := by
  unfold split words
  split
  · exact filter_rdropWhile_isEmpty _
  · rw [List.splitOn_eq_singleton ‹_›]

/-! ## Empty pieces -/

theorem nil_mem_splitOn_iff_tail (l : List α) :
    [] ∈ l.splitOn sep ↔ (l = [] ∨ [sep] <+: l) ∨ [] ∈ (l.splitOn sep).tail := by
  rcases l with _ | ⟨x, l⟩
  · simp
  · rw [List.splitOn_cons_eq_if_modifyHead]
    obtain ⟨piece, pieces, hpieces⟩ := List.exists_cons_of_ne_nil (List.splitOn_ne_nil sep l)
    by_cases hx : x = sep
    · simp [hx]
    · simp [hx, hpieces, Ne.symm hx]

theorem nil_mem_tail_splitOn {l : List α} :
    [] ∈ (l.splitOn sep).tail ↔ [sep, sep] <:+: l ∨ [sep] <:+ l := by
  induction l with
  | nil => simp
  | cons x l ih =>
    rw [List.splitOn_cons_eq_if_modifyHead, List.infix_cons_iff, List.suffix_cons_iff]
    by_cases hx : x = sep
    · subst hx
      simp [nil_mem_splitOn_iff_tail, ih]
      tauto
    · simp [hx, Ne.symm hx, ih]

theorem nil_mem_splitOn {l : List α} (hne : l ≠ []) :
    [] ∈ l.splitOn sep ↔ [sep] <+: l ∨ [sep, sep] <:+: l ∨ [sep] <:+ l := by
  rw [nil_mem_splitOn_iff_tail, nil_mem_tail_splitOn]
  simp [hne]

/-- The text does not start with a separator, and has no two in a row, unless only separators
follow. -/
def Tight (sep : α) (l : List α) : Prop :=
  ¬ [sep] <+: l.rdropWhile (· = sep) ∧ ¬ [sep, sep] <:+: l.rdropWhile (· = sep)

theorem splitOn_concat_of_ne {x : α} (hx : x ≠ sep) (l : List α) :
    ∃ pieces piece, (l ++ [x]).splitOn sep = pieces ++ [piece ++ [x]] := by
  induction l with
  | nil => exact ⟨[], [], by simp [List.splitOn_cons_eq_if_modifyHead, hx]⟩
  | cons y l ih =>
    obtain ⟨pieces, piece, hpieces⟩ := ih
    rw [List.cons_append, List.splitOn_cons_eq_if_modifyHead, hpieces]
    by_cases hy : y = sep
    · exact ⟨[] :: pieces, piece, by simp [hy]⟩
    · rcases pieces with _ | ⟨first, pieces⟩
      · exact ⟨[], y :: piece, by simp [hy]⟩
      · exact ⟨(y :: first) :: pieces, piece, by simp [hy]⟩

theorem nil_not_mem_rdropWhile_iff (l : List α) :
    [] ∉ (l.splitOn sep).rdropWhile List.isEmpty ↔ Tight sep l := by
  unfold Tight
  induction l using List.reverseRecOn with
  | nil => simp [List.rdropWhile_singleton]
  | append_singleton l x ih =>
    by_cases hx : x = sep
    · subst hx
      rw [List.splitOn_append_cons_self, List.splitOn_nil, List.rdropWhile_concat_pos _ _ _ rfl,
        List.rdropWhile_concat_pos _ _ _ (by simp), ih]
    · obtain ⟨pieces, piece, hpieces⟩ := splitOn_concat_of_ne hx l
      have hself : ((l ++ [x]).splitOn sep).rdropWhile List.isEmpty = (l ++ [x]).splitOn sep := by
        rw [hpieces, List.rdropWhile_concat_neg _ _ _ (by simp)]
      rw [hself, List.rdropWhile_concat_neg _ _ _ (by simpa using hx), nil_mem_splitOn (by simp)]
      simp [Ne.symm hx]

theorem nil_not_mem_split_iff {l : List α} :
    [] ∉ split sep l ↔ l ≠ [] ∧ Tight sep l := by
  rw [← nil_not_mem_rdropWhile_iff]
  unfold split
  split
  · have hne : l ≠ [] := List.ne_nil_of_mem ‹_›
    simp [hne]
  · rw [List.splitOn_eq_singleton ‹_›, List.rdropWhile_singleton]
    by_cases hl : l = [] <;> simp [hl]

end Split
