import Mathlib.Data.List.Nodup
import Mathlib.Logic.Function.Basic

/-!
# Work that is handed out

Items go to several workers, who take them from their own lists one by one. An
item is known by its key. `Once` says that no key is there twice, neither among
the items that are done nor among those in the lists.
-/

namespace Handout

variable {ι α κ : Type} (key : α → κ)

/-- Everything has been handed out once, and is either finished or pending at one place. -/
structure Once (finished : List α) (pending : ι → List α) : Prop where
  finished_nodup : (finished.map key).Nodup
  pending_nodup : ∀ i, ((pending i).map key).Nodup
  pending_apart : ∀ i j, i ≠ j → ∀ a ∈ pending i, ∀ b ∈ pending j, key a ≠ key b
  apart : ∀ i, ∀ a ∈ pending i, ∀ b ∈ finished, key a ≠ key b

variable {key} [DecidableEq ι] {finished : List α} {pending : ι → List α}

omit [DecidableEq ι] in
theorem Once.nil : Once key ([] : List α) (fun _ : ι => []) where
  finished_nodup := List.nodup_nil
  pending_nodup _ := List.nodup_nil
  pending_apart _ _ _ _ h := by cases h
  apart _ _ h := by cases h

theorem Once.update (h : Once key finished pending) {i : ι} {l : List α} (hl : (l.map key).Nodup)
    (hopen : ∀ j, j ≠ i → ∀ a ∈ l, ∀ b ∈ pending j, key a ≠ key b)
    (hfinished : ∀ a ∈ l, ∀ b ∈ finished, key a ≠ key b) :
    Once key finished (Function.update pending i l) where
  finished_nodup := h.finished_nodup
  pending_nodup j := by
    rcases eq_or_ne j i with rfl | hj
    · rwa [Function.update_self]
    · rw [Function.update_of_ne hj]
      exact h.pending_nodup j
  pending_apart j k hjk := by
    rcases eq_or_ne j i with rfl | hj
    · rw [Function.update_self, Function.update_of_ne hjk.symm]
      exact hopen k hjk.symm
    · rw [Function.update_of_ne hj]
      rcases eq_or_ne k i with rfl | hk
      · rw [Function.update_self]
        exact fun a ha b hb heq => hopen j hj b hb a ha heq.symm
      · rw [Function.update_of_ne hk]
        exact h.pending_apart j k hjk
  apart j := by
    rcases eq_or_ne j i with rfl | hj
    · rwa [Function.update_self]
    · rw [Function.update_of_ne hj]
      exact h.apart j

theorem Once.drop (h : Once key finished pending) {i : ι} {l : List α}
    (hl : List.Sublist l (pending i)) : Once key finished (Function.update pending i l) := by
  apply h.update
  · exact (h.pending_nodup i).sublist (hl.map key)
  · exact fun j hj a ha b hb => h.pending_apart i j hj.symm a (hl.subset ha) b hb
  · exact fun a ha b hb => h.apart i a (hl.subset ha) b hb

theorem Once.finish (h : Once key finished pending) {i : ι} {a : α} {rest : List α}
    (hi : pending i = a :: rest) :
    Once key (finished ++ [a]) (Function.update pending i rest) := by
  have ha : a ∈ pending i := by rw [hi]; exact List.mem_cons_self
  have hdrop := h.drop (hi ▸ List.sublist_cons_self a rest)
  have hnodup := h.pending_nodup i
  rw [hi, List.map_cons, List.nodup_cons] at hnodup
  refine ⟨?_, hdrop.pending_nodup, hdrop.pending_apart, ?_⟩
  · rw [List.map_append, List.nodup_append]
    refine ⟨h.finished_nodup, List.nodup_singleton _, ?_⟩
    intro x hx y hy hxy
    obtain ⟨b, hb, rfl⟩ := List.mem_map.mp hx
    rw [List.map_singleton, List.mem_singleton] at hy
    exact h.apart i a ha b hb (hy ▸ hxy.symm)
  · intro j b hb c hc
    rcases List.mem_append.mp hc with hc | hc
    · exact hdrop.apart j b hb c hc
    · rw [List.mem_singleton.mp hc]
      rcases eq_or_ne j i with rfl | hj
      · rw [Function.update_self] at hb
        exact fun heq => hnodup.1 (heq ▸ List.mem_map_of_mem hb)
      · rw [Function.update_of_ne hj] at hb
        exact fun heq => h.pending_apart i j hj.symm a ha b hb heq.symm

end Handout
