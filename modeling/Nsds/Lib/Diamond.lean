import Nsds.Lib.Transition
import Mathlib.Data.List.Perm.Basic

/-!
# Independent parties

Where a step is named by the party that takes it, and the steps of two parties never
disturb each other, a run may be rearranged: a step that was possible at the start can be
moved to the front, or is still possible at the end.
-/

namespace Transition.System

variable {σ ℓ : Type}

/-- What a party does next is determined, and no other party can change it or prevent it. -/
structure Independent (sys : System σ ℓ) : Prop where
  unique : ∀ {s t u p}, sys.step s p t → sys.step s p u → t = u
  commute : ∀ {s t u p q}, p ≠ q → sys.step s p t → sys.step s q u →
    ∃ v, sys.step t q v ∧ sys.step u p v

namespace Run

variable {sys : System σ ℓ} {s t u : σ} {ls ms : List ℓ} {p : ℓ}

theorem of_stuck (hstuck : sys.Stuck s) (h : sys.Run s ls t) : ls = [] ∧ t = s := by
  cases h with
  | nil => exact ⟨rfl, rfl⟩
  | cons hs _ => exact absurd hs (hstuck _ _)

variable [DecidableEq ℓ]

theorem residual (hind : sys.Independent) (hs : sys.step s p t) (h : sys.Run s ms u) :
    (p ∈ ms ∧ sys.Run t (ms.erase p) u) ∨ (p ∉ ms ∧ ∃ v, sys.step u p v ∧ sys.Run t ms v) := by
  induction h generalizing t with
  | nil s => exact .inr ⟨by simp, t, hs, .nil t⟩
  | @cons s w u q ms hq h ih =>
    rcases eq_or_ne p q with rfl | hpq
    · rw [List.erase_cons_head, hind.unique hs hq]
      exact .inl ⟨by simp, h⟩
    · obtain ⟨v, htv, hwv⟩ := hind.commute hpq hs hq
      rcases ih hwv with ⟨hmem, hrun⟩ | ⟨hmem, x, hx, hrun⟩
      · rw [List.erase_cons_tail (by simpa using hpq.symm)]
        exact .inl ⟨by simp [hmem], .cons htv hrun⟩
      · exact .inr ⟨by simp [hpq, hmem], x, hx, .cons htv hrun⟩

theorem confluent (hind : sys.Independent) (h : sys.Run s ls t) (hstuck : sys.Stuck t)
    (h' : sys.Run s ms u) : ∃ ks, sys.Run u ks t ∧ (ms ++ ks).Perm ls := by
  induction h generalizing ms u with
  | nil s =>
    obtain ⟨rfl, rfl⟩ := h'.of_stuck hstuck
    exact ⟨[], .nil _, .nil⟩
  | @cons s w t p ls hs h ih =>
    rcases h'.residual hind hs with ⟨hmem, hrun⟩ | ⟨-, v, hv, hrun⟩
    · obtain ⟨ks, hks, hperm⟩ := ih hstuck hrun
      exact ⟨ks, hks, ((List.perm_cons_erase hmem).append_right ks).trans (hperm.cons p)⟩
    · obtain ⟨ks, hks, hperm⟩ := ih hstuck hrun
      exact ⟨p :: ks, .cons hv hks, List.perm_middle.trans (hperm.cons p)⟩

end Run

end Transition.System
