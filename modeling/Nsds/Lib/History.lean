import Mathlib.Data.List.Induction

/-!
# Histories

A history grows at its end. A rule for its entries says what may come after what is
already there.
-/

namespace History

variable {α : Type} {P : List α → α → Prop} {l m : List α} {x : α}

/-- Every entry obeys `P` with what comes before it. -/
def Each (P : List α → α → Prop) (l : List α) : Prop :=
  ∀ pre x post, l = pre ++ x :: post → P pre x

theorem Each.nil : Each P [] := by
  intro pre x post h
  simp at h

theorem Each.of_append (h : Each P (l ++ m)) : Each P l := by
  rintro pre x post rfl
  exact h pre x (post ++ m) (by rw [List.append_assoc, List.cons_append])

theorem each_append_singleton : Each P (l ++ [x]) ↔ Each P l ∧ P l x := by
  constructor
  · intro h
    exact ⟨h.of_append, h l x [] rfl⟩
  · rintro ⟨hl, hx⟩ pre y post heq
    rcases List.eq_nil_or_concat post with rfl | ⟨post, z, rfl⟩
    · obtain ⟨rfl, hxy⟩ := List.append_inj' heq rfl
      obtain rfl := List.singleton_inj.mp hxy
      exact hx
    · rw [List.concat_eq_append, ← List.cons_append, ← List.append_assoc] at heq
      exact hl pre y post (List.append_inj' heq rfl).1

theorem exists_first_not (h : ¬ Each P l) : ∃ pre x post, l = pre ++ x :: post ∧
    Each P pre ∧ ¬ P pre x := by
  induction l using List.reverseRecOn with
  | nil => exact absurd Each.nil h
  | append_singleton l x ih =>
    rcases Classical.em (Each P l) with hl | hl
    · exact ⟨l, x, [], rfl, hl, fun hx => h (each_append_singleton.mpr ⟨hl, hx⟩)⟩
    · obtain ⟨pre, y, post, rfl, hpre, hy⟩ := ih hl
      exact ⟨pre, y, post ++ [x], by rw [List.append_assoc, List.cons_append], hpre, hy⟩

/-- `x` is the most recent entry that `p` is about. -/
def Last (p : α → Prop) (l : List α) (x : α) : Prop :=
  ∃ pre post, l = pre ++ x :: post ∧ p x ∧ ∀ y ∈ post, ¬ p y

variable {p : α → Prop} {y : α}

theorem not_last_nil : ¬ Last p [] x := by
  rintro ⟨pre, post, h, -⟩
  simp at h

theorem last_append_singleton : Last p (l ++ [x]) y ↔ p x ∧ y = x ∨ ¬ p x ∧ Last p l y := by
  constructor
  · rintro ⟨pre, post, heq, hy, hpost⟩
    rcases List.eq_nil_or_concat post with rfl | ⟨post, z, rfl⟩
    · obtain ⟨-, hxy⟩ := List.append_inj' heq rfl
      obtain rfl := List.singleton_inj.mp hxy
      exact .inl ⟨hy, rfl⟩
    · rw [List.concat_eq_append] at heq hpost
      rw [← List.cons_append, ← List.append_assoc] at heq
      obtain ⟨rfl, hxz⟩ := List.append_inj' heq rfl
      obtain rfl := List.singleton_inj.mp hxz
      rw [List.forall_mem_append, List.forall_mem_singleton] at hpost
      exact .inr ⟨hpost.2, pre, post, rfl, hy, hpost.1⟩
  · rintro (⟨hx, rfl⟩ | ⟨hx, pre, post, rfl, hy, hpost⟩)
    · exact ⟨l, [], rfl, hx, by simp⟩
    · refine ⟨pre, post ++ [x], by rw [List.append_assoc, List.cons_append], hy, ?_⟩
      rw [List.forall_mem_append, List.forall_mem_singleton]
      exact ⟨hpost, hx⟩

theorem exists_last : (∃ x, Last p l x) ↔ ∃ x ∈ l, p x := by
  induction l using List.reverseRecOn with
  | nil => simp [not_last_nil]
  | append_singleton l z ih =>
    simp only [last_append_singleton, List.mem_append, List.mem_singleton]
    rcases Classical.em (p z) with hz | hz
    · exact ⟨fun _ => ⟨z, .inr rfl, hz⟩, fun _ => ⟨z, .inl ⟨hz, rfl⟩⟩⟩
    · constructor
      · rintro ⟨x, ⟨hz', -⟩ | ⟨-, hx⟩⟩
        · exact absurd hz' hz
        · obtain ⟨y, hy, hpy⟩ := ih.mp ⟨x, hx⟩
          exact ⟨y, .inl hy, hpy⟩
      · rintro ⟨x, hx | rfl, hpx⟩
        · obtain ⟨y, hy⟩ := ih.mpr ⟨x, hx, hpx⟩
          exact ⟨y, .inr ⟨hz, hy⟩⟩
        · exact absurd hpx hz

end History
