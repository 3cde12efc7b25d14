import Mathlib.Algebra.Order.Field.Basic
import Mathlib.Data.Rat.Cast.Order
import Mathlib.Tactic.NormNum
import Nsds.Mpi.LinearRoad.Road

/-!
# The draws of a segment

The quotient in `move_next_segment` is one of integers, and the loop over the cars of a
segment ends where its counter meets the cars that are left.
-/

namespace Nsds.LinearRoad

def alpha : ℚ := 1 / 2

/-- `(rand() / RAND_MAX) < alpha`. -/
def moveNextSegment (randMax rand : Nat) : Bool := decide (((rand / randMax : Nat) : ℚ) < alpha)

/-- How many decisions the loop of `moveCars` has taken when it ends: the last value of `c`. -/
def decisions (moveNextSegment : Nat → Bool) (c here : Nat) : Nat :=
  if c < here then
    if moveNextSegment c then decisions moveNextSegment (c + 1) (here - 1)
    else decisions moveNextSegment (c + 1) here
  else c
termination_by here - c

/-! ## The loop over the cars -/

theorem decisions_bounds (draw : Nat → Bool) (c here : Nat) :
    c ≤ decisions draw c here ∧ decisions draw c here ≤ max c here := by
  fun_induction decisions draw c here <;> omega

theorem countP_range'_of_lt (draw : Nat → Bool) {c d : Nat} (h : c < d) :
    (List.range' c (d - c)).countP draw =
      (List.range' (c + 1) (d - (c + 1))).countP draw + if draw c then 1 else 0 := by
  obtain ⟨k, rfl⟩ := Nat.exists_eq_add_of_lt h
  rw [show c + k + 1 - c = k + 1 by omega, show c + k + 1 - (c + 1) = k by omega,
    List.range'_succ, List.countP_cons]

theorem moveCars_snd (draw : Nat → Bool) (c here ahead : Nat) :
    (moveCars draw c here ahead).2 =
      ahead + (List.range' c (decisions draw c here - c)).countP draw := by
  fun_induction decisions draw c here generalizing ahead with
  | case1 c here hc hmove ih =>
    have hlow := (decisions_bounds draw (c + 1) (here - 1)).1
    rw [moveCars, if_pos hc, if_pos hmove, ih, countP_range'_of_lt draw hlow, if_pos hmove]
    omega
  | case2 c here hc hmove ih =>
    have hlow := (decisions_bounds draw (c + 1) here).1
    rw [moveCars, if_pos hc, if_neg hmove, ih, countP_range'_of_lt draw hlow, if_neg hmove]
    omega
  | case3 c here hc => rw [moveCars, if_neg hc, Nat.sub_self]; rfl

theorem leaving_eq (draw : Nat → Bool) (n : Nat) :
    leaving draw n = (List.range (decisions draw 0 n)).countP draw := by
  unfold leaving
  rw [moveCars_snd, Nat.zero_add, Nat.sub_zero, List.range_eq_range']

theorem decisions_eq_iff (draw : Nat → Bool) {c here : Nat} (h : c ≤ here) :
    decisions draw c here = here ↔ ∀ i, c ≤ i → i + 1 < here → draw i = false := by
  fun_induction decisions draw c here with
  | case1 c here hc hmove ih =>
    have hhigh := decisions_bounds draw (c + 1) (here - 1)
    rcases Nat.lt_or_ge (c + 1) here with hlt | hge
    · refine iff_of_false (by omega) fun hstay => ?_
      rw [hstay c le_rfl hlt] at hmove
      simp at hmove
    · exact iff_of_true (by omega) fun i hi hlt => by omega
  | case2 c here hc hmove ih =>
    rw [ih (by omega)]
    refine ⟨fun hstay i hi hlt => ?_, fun hstay i hi hlt => hstay i (by omega) hlt⟩
    rcases hi.eq_or_lt with rfl | hi
    · simpa using hmove
    · exact hstay i hi hlt
  | case3 c here hc => exact iff_of_true (by omega) fun i hi hlt => by omega

/-! ## One decision for each car -/

section

variable (randMax : Nat) (rand : Nat → Nat)

/-- How many of the first `n` draws are below `alpha`, as real quotients. -/
def belowAlpha (n : Nat) : Nat :=
  (List.range n).countP fun c => decide ((rand c : ℚ) / randMax < alpha)

/-- The loop takes one decision for each of `n` cars, and as many leave as draws are below
`alpha`, whatever they are counted in. -/
def OneDecisionEach (n : Nat) : Prop :=
  decisions (fun c => moveNextSegment randMax (rand c)) 0 n = n ∧
  ∀ ahead, moveCars (fun c => moveNextSegment randMax (rand c)) 0 n ahead =
    (n - belowAlpha randMax rand n, ahead + belowAlpha randMax rand n)

end

variable {randMax : Nat} {rand : Nat → Nat}

theorem moveNextSegment_eq_false {r : Nat} (hmax : 0 < randMax) (hr : r ≤ randMax) :
    moveNextSegment randMax r = false ↔ r = randMax := by
  unfold moveNextSegment alpha
  rcases hr.eq_or_lt with rfl | hlt
  · rw [Nat.div_self hmax]
    norm_num
  · rw [Nat.div_eq_of_lt hlt]
    norm_num
    omega

theorem below_iff {r : Nat} (hmax : 0 < randMax) :
    (r : ℚ) / randMax < alpha ↔ 2 * r < randMax := by
  have hpos : (0 : ℚ) < randMax := by exact_mod_cast hmax
  rw [alpha, div_lt_div_iff₀ hpos two_pos, one_mul, mul_comm]
  exact_mod_cast Iff.rfl

theorem moveNextSegment_eq_iff {r : Nat} (hmax : 0 < randMax) (hr : r ≤ randMax) :
    moveNextSegment randMax r = decide ((r : ℚ) / randMax < alpha) ↔
      r = randMax ∨ 2 * r < randMax := by
  have hbelow : decide ((r : ℚ) / randMax < alpha) = decide (2 * r < randMax) :=
    decide_eq_decide.mpr (below_iff hmax)
  rw [hbelow]
  by_cases hlast : r = randMax
  · rw [(moveNextSegment_eq_false hmax hr).mpr hlast]
    simp [hlast]
    omega
  · have hmove := mt (moveNextSegment_eq_false hmax hr).mp hlast
    simp only [Bool.not_eq_false] at hmove
    rw [hmove]
    simp [hlast]

theorem one_decision_each_iff (hmax : 0 < randMax) (hrand : ∀ c, rand c ≤ randMax) (n : Nat) :
    OneDecisionEach randMax rand n ↔
      (∀ c, c + 1 < n → rand c = randMax) ∧
      ∀ c, c + 1 = n → rand c = randMax ∨ 2 * rand c < randMax := by
  let draw := fun c => moveNextSegment randMax (rand c)
  have hcount : decisions draw 0 n = n ↔ ∀ c, c + 1 < n → rand c = randMax := by
    simp [draw, decisions_eq_iff _ (Nat.zero_le n), moveNextSegment_eq_false hmax (hrand _)]
  have hmoves : (∀ ahead, moveCars draw 0 n ahead =
      (n - belowAlpha randMax rand n, ahead + belowAlpha randMax rand n)) ↔
      leaving draw n = belowAlpha randMax rand n := by
    simp only [moveCars_eq, Prod.mk.injEq, Nat.add_left_cancel_iff]
    exact ⟨fun h => (h 0).2, fun h _ => ⟨by rw [h], h⟩⟩
  unfold OneDecisionEach
  rw [hcount, hmoves]
  refine and_congr_right fun hfirst => ?_
  rw [leaving_eq, hcount.mpr hfirst]
  rcases n with _ | n
  · simp [belowAlpha]
  · -- the draws before the last are right, so that the last one decides
    have hsame : (List.range n).countP draw = belowAlpha randMax rand n := by
      refine List.countP_congr fun c hc => ?_
      have hlast := hfirst c (by simpa using hc)
      rw [← (moveNextSegment_eq_iff hmax (hrand c)).mpr (.inl hlast)]
    have hsucc : belowAlpha randMax rand (n + 1) = belowAlpha randMax rand n +
        if decide ((rand n : ℚ) / randMax < alpha) then 1 else 0 := by
      unfold belowAlpha
      rw [List.range_succ, List.countP_append, List.countP_singleton]
    rw [hsucc, List.range_succ, List.countP_append, hsame, List.countP_singleton,
      Nat.add_left_cancel_iff]
    have hlast := moveNextSegment_eq_iff hmax (hrand n)
    simp only [Nat.succ.injEq, forall_eq, ← hlast]
    change ((if moveNextSegment randMax (rand n) then 1 else 0) = _) ↔ _
    generalize moveNextSegment randMax (rand n) = a, decide ((rand n : ℚ) / randMax < alpha) = b
    revert a b
    decide

theorem one_decision_each_two :
    OneDecisionEach 2147483647 (fun c => if c = 0 then 2147483647 else 5) 2 := by
  apply (one_decision_each_iff (by simp) (fun c => by split <;> simp) 2).mpr
  constructor
  · intro c hc
    simp [show c = 0 by omega]
  · intro c hc
    simp [show c = 1 by omega]

/-- Of two cars that are both to leave, the second one is not asked, and a single car leaves
with a draw above `alpha`. -/
theorem second_car_not_asked : ¬ OneDecisionEach 2147483647 (fun _ => 5) 2 ∧
    ¬ OneDecisionEach 2147483647 (fun _ => 2000000000) 1 := by
  constructor
  · intro h
    have hstays := (decisions_eq_iff _ (Nat.zero_le 2)).mp h.1 0 le_rfl (by decide)
    norm_num [moveNextSegment, alpha] at hstays
  · intro h
    have hleaves := congrArg Prod.snd (h.2 0)
    rw [moveCars_snd, h.1] at hleaves
    norm_num [List.range'_succ, moveNextSegment, belowAlpha, alpha] at hleaves

end Nsds.LinearRoad
