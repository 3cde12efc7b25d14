import Mathlib.Data.List.Rotate

/-!
# Going around a list

Whatever takes the elements of a list in turn takes each of them once in every full turn,
wherever that turn starts.
-/

namespace Cyclic

variable {α β : Type} {R : α → β → Prop} {ring : List α} {seq : List β}

/-- The visits of `seq` are to the elements of `ring`, in turn. -/
def Visits (R : α → β → Prop) (ring : List α) (seq : List β) : Prop :=
  ∀ (j : Nat) (b : β), seq[j]? = some b → ∃ a, ring[j % ring.length]? = some a ∧ R a b

theorem visits_nil (R : α → β → Prop) (ring : List α) : Visits R ring [] := by
  intro j b h
  cases h

theorem Visits.append_singleton (h : Visits R ring seq) {a : α} {b : β}
    (ha : ring[seq.length % ring.length]? = some a) (hab : R a b) :
    Visits R ring (seq ++ [b]) := by
  intro j c hc
  rcases Nat.lt_trichotomy j seq.length with hj | rfl | hj
  · rw [List.getElem?_append_left hj] at hc
    exact h j c hc
  · rw [List.getElem?_concat_length] at hc
    cases hc
    exact ⟨a, ha, hab⟩
  · rw [List.getElem?_eq_none (by rw [List.length_append]; exact hj)] at hc
    cases hc

theorem Visits.window (h : Visits R ring seq) {j : Nat} (hj : j + ring.length ≤ seq.length) :
    List.Forall₂ R (ring.rotate j) ((seq.drop j).take ring.length) := by
  have hlength : ((seq.drop j).take ring.length).length = ring.length := by
    rw [List.length_take, List.length_drop]
    omega
  refine List.forall₂_iff_get.mpr ⟨by rw [List.length_rotate, hlength], fun i hi hi' => ?_⟩
  rw [hlength] at hi'
  obtain ⟨a, ha, hab⟩ := h (i + j) _ (List.getElem?_eq_getElem (by omega))
  obtain ⟨_, rfl⟩ := List.getElem?_eq_some_iff.mp ha
  simpa only [List.get_eq_getElem, List.getElem_rotate, List.getElem_take, List.getElem_drop,
    Nat.add_comm j] using hab

theorem Visits.perm (h : Visits R ring seq) {f : β → List α} (hf : ∀ a b, R a b → f b = [a])
    {j : Nat} (hj : j + ring.length ≤ seq.length) :
    (((seq.drop j).take ring.length).flatMap f).Perm ring := by
  have hturn : ∀ {as : List α} {bs : List β}, List.Forall₂ R as bs → bs.flatMap f = as := by
    intro as bs h
    induction h with
    | nil => rfl
    | cons hab _ ih => rw [List.flatMap_cons, hf _ _ hab, ih, List.singleton_append]
  rw [hturn (h.window hj)]
  exact List.rotate_perm ring j

end Cyclic
