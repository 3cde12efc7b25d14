import Mathlib.Algebra.Field.Rat
import Mathlib.Algebra.BigOperators.Group.List.Basic

/-!
# Means of lists
-/

namespace Mean

theorem foldl_nonzero {M : Type} [AddMonoid M] [DecidableEq M] {turn : M × Nat → M → M × Nat}
    (hturn : ∀ sum no x, turn (sum, no) x = if x ≠ 0 then (sum + x, no + 1) else (sum, no))
    (l : List M) (sum : M) (no : Nat) :
    l.foldl turn (sum, no) =
      (sum + (l.filter (· ≠ 0)).sum, no + (l.filter (· ≠ 0)).length) := by
  induction l generalizing sum no with
  | nil => simp
  | cons x l ih =>
    rw [List.foldl_cons, hturn]
    by_cases hx : x = 0
    · rw [if_neg (not_not.mpr hx), ih, List.filter_cons_of_neg (by simpa using hx)]
    · rw [if_pos hx, ih, List.filter_cons_of_pos (by simpa using hx), List.sum_cons,
        List.length_cons, add_assoc, Nat.add_right_comm no 1, Nat.add_assoc]

/-- The mean of no numbers is `0`. -/
def mean (l : List Nat) : ℚ := (l.sum : ℚ) / l.length

variable {l m : List Nat}

theorem mean_mul_length (h : l ≠ []) : mean l * l.length = l.sum := by
  have hlength : (l.length : ℚ) ≠ 0 := by
    exact_mod_cast (List.length_pos_iff.mpr h).ne'
  exact div_mul_cancel₀ _ hlength

theorem mean_eq_iff (h : l ≠ []) (q : ℚ) : mean l = q ↔ (l.sum : ℚ) = q * l.length := by
  have hlength : (l.length : ℚ) ≠ 0 := by
    exact_mod_cast (List.length_pos_iff.mpr h).ne'
  exact div_eq_iff hlength

theorem mean_append_iff (hl : l ≠ []) (hm : m ≠ []) :
    mean (l ++ m) = mean m ↔ mean l = mean m := by
  rw [mean_eq_iff (List.append_ne_nil_of_left_ne_nil hl m), mean_eq_iff hl]
  rw [List.sum_append, List.length_append, Nat.cast_add, Nat.cast_add, mul_add, mean_mul_length hm]
  exact add_left_inj _

theorem mean_flatten {ls : List (List Nat)} {q : ℚ} (h : ∀ l ∈ ls, l ≠ [] ∧ mean l = q) :
    (ls.flatten.sum : ℚ) = q * ls.flatten.length := by
  induction ls with
  | nil => simp
  | cons l ls ih =>
    rw [List.forall_mem_cons] at h
    obtain ⟨⟨hl, hmean⟩, hls⟩ := h
    rw [List.flatten_cons, List.sum_append, List.length_append, Nat.cast_add, Nat.cast_add,
      (mean_eq_iff hl q).mp hmean, ih hls, mul_add]

/-- There is one mean for all. -/
def SameMean (ls : List (List Nat)) : Prop := ∀ l ∈ ls, ∀ m ∈ ls, mean l = mean m

theorem sameMean_append_singleton {ls : List (List Nat)} (hls : ∀ m ∈ ls, m ≠ [])
    (hl : l ≠ []) :
    SameMean (ls ++ [l]) ↔ SameMean ls ∧ mean (ls.flatten ++ l) = mean l := by
  have hflat (hne : ls.flatten ≠ []) {q : ℚ} (h : ∀ m ∈ ls, mean m = q) :
      mean (ls.flatten ++ l) = mean l ↔ q = mean l := by
    rw [mean_append_iff hne hl, (mean_eq_iff hne q).mpr]
    exact mean_flatten fun m hm => ⟨hls m hm, h m hm⟩
  unfold SameMean
  simp only [List.forall_mem_append, List.forall_mem_singleton]
  rcases List.eq_nil_or_concat ls with rfl | ⟨init, last, hlast⟩
  · simp
  · have hmem : last ∈ ls := by simp [hlast]
    have hne : ls.flatten ≠ [] := by
      intro hnil
      exact hls last hmem (List.flatten_eq_nil_iff.mp hnil last hmem)
    constructor
    · rintro ⟨hall, -⟩
      exact ⟨fun m hm n hn => (hall m hm).1 n hn,
        (hflat hne fun m hm => (hall m hm).2).mpr rfl⟩
    · rintro ⟨hsame, hmean⟩
      have hlast' := (hflat hne fun m hm => hsame m hm last hmem).mp hmean
      have hall : ∀ m ∈ ls, mean m = mean l := fun m hm => (hsame m hm last hmem).trans hlast'
      exact ⟨fun m hm => ⟨hsame m hm, hall m hm⟩, fun m hm => (hall m hm).symm, trivial⟩

end Mean
