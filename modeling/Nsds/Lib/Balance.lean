import Mathlib.Data.List.Count

/-!
# Greedy balancing

Balls go into bins one by one, each into a bin that holds the fewest.
-/

namespace Balance

variable {β : Type} [DecidableEq β]

/-- No bin holds two balls more than another. `balls` lists the bin of every ball. -/
def Balanced (bins balls : List β) : Prop :=
  ∀ p ∈ bins, ∀ q ∈ bins, balls.count p ≤ balls.count q + 1

/-- `p` is a bin with the fewest balls. -/
def Least (bins balls : List β) (p : β) : Prop :=
  p ∈ bins ∧ ∀ q ∈ bins, balls.count p ≤ balls.count q

theorem balanced_nil (bins : List β) : Balanced bins [] := by
  intro p _ q _
  simp

theorem Balanced.cons {bins balls : List β} {b : β} (h : Balanced bins balls)
    (hb : Least bins balls b) : Balanced bins (b :: balls) := by
  intro p hp q hq
  have hpq := h p hp q hq
  have hbq := hb.2 q hq
  simp only [List.count_cons, beq_iff_eq]
  split_ifs with hbp hbq'
  · omega
  · subst hbp; omega
  · omega
  · omega

end Balance
