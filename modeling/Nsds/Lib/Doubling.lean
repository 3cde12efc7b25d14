import Mathlib.Logic.Relation
import Mathlib.Order.WellFounded

/-!
# Transitive closure by doubling

A relation is joined with itself and added to the result, until nothing is new. What no
round adds to is the transitive closure.
-/

namespace Doubling

open Relation

variable {α : Type} {r s : α → α → Prop}

/-- One step of `r`, or two. -/
def double (r : α → α → Prop) : α → α → Prop := fun a b => r a b ∨ Comp r r a b

theorem le_double : r ≤ double r := fun _ _ => .inl

theorem double_le_transGen : double r ≤ TransGen r := by
  rintro a b (h | ⟨c, hac, hcb⟩)
  · exact .single h
  · exact .tail (.single hac) hcb

theorem transGen_le_of_double_le (h : double r ≤ r) : TransGen r ≤ r := by
  have htrans : IsTrans α r := ⟨fun a c b hac hcb => h a b (.inr ⟨c, hac, hcb⟩)⟩
  exact transGen_minimal le_rfl

theorem transGen_le_of_closed (hrs : r ≤ s) (h : double s ≤ s) : TransGen r ≤ s :=
  (TransGen.mono hrs).trans (transGen_le_of_double_le h)

theorem exists_eq_succ {f : Nat → Nat} {b : Nat} (hmono : ∀ n, f n ≤ f (n + 1))
    (hbound : ∀ n, f n ≤ b) : ∃ n, f n = f (n + 1) := by
  by_contra hne
  have hlt : ∀ n, f n < f (n + 1) := fun n => by
    have hn : f n ≠ f (n + 1) := fun h => hne ⟨n, h⟩
    have := hmono n
    omega
  have hle : b + 1 ≤ f (b + 1) := (strictMono_nat_of_lt_succ hlt).le_apply
  have := hbound (b + 1)
  omega

end Doubling
