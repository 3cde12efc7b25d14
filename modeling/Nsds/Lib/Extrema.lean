import Mathlib.Data.List.Induction
import Mathlib.Order.Bounds.Basic

/-!
# The least and the greatest entries of a list
-/

namespace Extrema

/-! ## Least keys

There may be several entries whose key is the least. What a further entry changes depends on
how its key compares to theirs. -/

section

variable {α β : Type} [LinearOrder β] {key : α → β} {l : List α} {x y z : α}

/-- An entry of the least key. -/
def Least (key : α → β) (l : List α) (x : α) : Prop := x ∈ l ∧ ∀ y ∈ l, key x ≤ key y

theorem Least.key_eq (hx : Least key l x) (hy : Least key l y) : key x = key y :=
  le_antisymm (hx.2 y hy.1) (hy.2 x hx.1)

theorem least_iff (hx : Least key l x) : Least key l y ↔ y ∈ l ∧ key y = key x := by
  constructor
  · intro hy
    exact ⟨hy.1, hy.key_eq hx⟩
  · rintro ⟨hy, hkey⟩
    exact ⟨hy, fun z hz => hkey ▸ hx.2 z hz⟩

theorem least_singleton : Least key [x] y ↔ y = x := by
  unfold Least
  constructor
  · rintro ⟨hy, -⟩
    exact List.mem_singleton.mp hy
  · rintro rfl
    simp

theorem least_append_of_lt (hy : Least key l y) (h : key x < key y) :
    Least key (l ++ [x]) z ↔ z = x := by
  have hx : Least key (l ++ [x]) x := by
    refine ⟨by simp, fun w hw => ?_⟩
    rcases List.mem_append.mp hw with hw | hw
    · exact h.le.trans (hy.2 w hw)
    · rw [List.mem_singleton.mp hw]
  rw [least_iff hx, List.mem_append, List.mem_singleton]
  constructor
  · rintro ⟨hz | hz, hkey⟩
    · exact absurd (hkey ▸ hy.2 z hz) (not_le_of_gt h)
    · exact hz
  · rintro rfl
    exact ⟨.inr rfl, rfl⟩

theorem Least.append_of_le (hy : Least key l y) (h : key y ≤ key x) : Least key (l ++ [x]) y := by
  refine ⟨List.mem_append_left _ hy.1, fun w hw => ?_⟩
  rcases List.mem_append.mp hw with hw | hw
  · exact hy.2 w hw
  · rwa [List.mem_singleton.mp hw]

theorem least_append_of_eq (hy : Least key l y) (h : key x = key y) :
    Least key (l ++ [x]) z ↔ Least key l z ∨ z = x := by
  rw [least_iff (hy.append_of_le h.ge), least_iff hy, List.mem_append, List.mem_singleton]
  constructor
  · rintro ⟨hz | hz, hkey⟩
    · exact .inl ⟨hz, hkey⟩
    · exact .inr hz
  · rintro (⟨hz, hkey⟩ | rfl)
    · exact ⟨.inl hz, hkey⟩
    · exact ⟨.inr rfl, h⟩

theorem least_append_of_gt (hy : Least key l y) (h : key y < key x) :
    Least key (l ++ [x]) z ↔ Least key l z := by
  rw [least_iff (hy.append_of_le h.le), least_iff hy, List.mem_append, List.mem_singleton]
  constructor
  · rintro ⟨hz | rfl, hkey⟩
    · exact ⟨hz, hkey⟩
    · exact absurd hkey h.ne'
  · rintro ⟨hz, hkey⟩
    exact ⟨.inl hz, hkey⟩

end

/-! ## A running maximum -/

variable {α : Type} [LinearOrder α]

theorem isGreatest_foldl_max (a : α) (l : List α) :
    IsGreatest {x | x = a ∨ x ∈ l} (l.foldl (fun b x => max x b) a) := by
  induction l using List.reverseRecOn with
  | nil => simp
  | append_singleton l x ih =>
    have hset : {y | y = a ∨ y ∈ l ++ [x]} = insert x {y | y = a ∨ y ∈ l} := by
      ext y
      simp only [List.mem_append, List.mem_singleton, Set.mem_ofPred_eq, Set.mem_insert_iff]
      tauto
    rw [List.foldl_append, hset]
    exact ih.insert x

end Extrema
