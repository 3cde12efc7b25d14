import Nsds.Lib.Slices
import Nsds.Mpi.LinearRoad.Code

/-!
# One iteration of a road

Every segment is processed after the one behind it would put cars into it, so the
draws of a segment are about the cars that it had before the iteration. An iteration
moves cars, lets some in and some out, and loses none.
-/

namespace Nsds.LinearRoad

/-! ## The cars that leave a segment -/

theorem moveCars_ahead (draw : Nat → Bool) (c here ahead n : Nat) :
    moveCars draw c here (n + ahead) =
      ((moveCars draw c here ahead).1, n + (moveCars draw c here ahead).2) := by
  fun_induction moveCars draw c here ahead with
  | case1 c here ahead hc hmove ih =>
    rw [moveCars, if_pos hc, if_pos hmove, Nat.add_assoc, ih]
  | case2 c here ahead hc hmove ih =>
    rw [moveCars, if_pos hc, if_neg hmove, ih]
  | case3 c here ahead hc => rw [moveCars, if_neg hc]

theorem moveCars_sum (draw : Nat → Bool) (c here ahead : Nat) :
    (moveCars draw c here ahead).1 + (moveCars draw c here ahead).2 = here + ahead := by
  fun_induction moveCars draw c here ahead with
  | case1 c here ahead hc hmove ih => omega
  | case2 c here ahead hc hmove ih => exact ih
  | case3 => rfl

def leaving (draw : Nat → Bool) (n : Nat) : Nat := (moveCars draw 0 n 0).2

theorem leaving_le (draw : Nat → Bool) (n : Nat) : leaving draw n ≤ n := by
  have := moveCars_sum draw 0 n 0
  unfold leaving
  omega

theorem moveCars_eq (draw : Nat → Bool) (n ahead : Nat) :
    moveCars draw 0 n ahead = (n - leaving draw n, ahead + leaving draw n) := by
  have hsum := moveCars_sum draw 0 n 0
  have hahead := moveCars_ahead draw 0 n 0 ahead
  rw [Nat.add_zero] at hahead
  rw [hahead]
  unfold leaving
  congr 1
  omega

variable (moves : Nat → Nat → Bool) (offset : Nat)

def crossing (segments : Segments) (i : Nat) : Nat := leaving (moves (offset + i)) (segments i)

theorem exitCars_eq (last : Nat) (segments : Segments) :
    exitCars moves offset last segments =
      (Function.update segments last (segments last - crossing moves offset segments last),
        crossing moves offset segments last) := by
  unfold exitCars
  rw [moveCars_eq, Nat.zero_add]
  rfl

def arriving (segments : Segments) (n i : Nat) : Nat :=
  if i = 0 then n else crossing moves offset segments (i - 1)

theorem arriving_congr {segments segments' : Segments} (n : Nat) {i : Nat}
    (h : ∀ j, j < i → segments j = segments' j) :
    arriving moves offset segments n i = arriving moves offset segments' n i := by
  unfold arriving crossing
  split
  · rfl
  · rw [h (i - 1) (by omega)]

theorem moveAcross_apply (n : Nat) (segments : Segments) (i : Nat) :
    moveAcross moves offset n segments i =
      (if i < n then segments i - crossing moves offset segments i else segments i) +
        (if i ≤ n then arriving moves offset segments 0 i else 0) := by
  induction n generalizing segments with
  | zero =>
    unfold moveAcross arriving
    rcases Nat.eq_zero_or_pos i with rfl | hi
    · simp
    · rw [if_neg (by omega), if_neg (by omega), Nat.add_zero]
  | succ n ih =>
    unfold moveAcross
    rw [moveCars_eq]
    simp only
    rw [ih]
    -- Below `n` nothing has changed, and segment `n + 1` is not looked at again.
    have hbelow : ∀ j, j < n → Function.update (Function.update segments n
        (segments n - leaving (moves (offset + n)) (segments n))) (n + 1)
        (segments (n + 1) + leaving (moves (offset + n)) (segments n)) j = segments j := by
      intro j hj
      rw [Function.update_of_ne (by omega), Function.update_of_ne (by omega)]
    rcases Nat.lt_trichotomy i n with hi | rfl | hi
    · rw [arriving_congr moves offset 0 fun j hj => hbelow j (by omega), if_pos hi,
        if_pos (Nat.le_of_lt hi), if_pos (by omega), if_pos (by omega)]
      unfold crossing
      rw [hbelow i hi]
    · rw [arriving_congr moves offset 0 hbelow, if_neg (Nat.lt_irrefl _), if_pos (Nat.le_refl _),
        if_pos (Nat.lt_succ_self _), if_pos (Nat.le_succ _), Function.update_of_ne (by omega),
        Function.update_self]
      rfl
    · rw [if_neg (by omega), if_neg (by omega), Nat.add_zero]
      rcases Nat.eq_or_lt_of_le hi with rfl | hi
      · simp [arriving, crossing]
      · rw [Function.update_of_ne (by omega), Function.update_of_ne (by omega),
          if_neg (by omega), if_neg (by omega), Nat.add_zero]

def simulate (len : Nat) (segments : Segments) (n : Nat) : Segments :=
  enterCars (moveAcross moves offset (len - 1) (exitCars moves offset (len - 1) segments).1) n

theorem simulate_apply {len i : Nat} (hi : i < len) (segments : Segments) (n : Nat) :
    simulate moves offset len segments n i =
      segments i - crossing moves offset segments i + arriving moves offset segments n i := by
  have hbelow : ∀ j, j < len - 1 → (exitCars moves offset (len - 1) segments).1 j = segments j := by
    intro j hj
    rw [exitCars_eq]
    exact Function.update_of_ne (by omega) _ _
  have hafter : ∀ j, j < len → moveAcross moves offset (len - 1)
      (exitCars moves offset (len - 1) segments).1 j =
        segments j - crossing moves offset segments j + arriving moves offset segments 0 j := by
    intro j hj
    rw [moveAcross_apply, arriving_congr moves offset 0 fun k hk => hbelow k (by omega)]
    rcases Nat.eq_or_lt_of_le (Nat.le_sub_one_of_lt hj) with rfl | hlt
    · rw [if_neg (Nat.lt_irrefl _), if_pos (Nat.le_refl _), exitCars_eq]
      simp only [Function.update_self]
    · rw [if_pos hlt, if_pos (Nat.le_of_lt hlt)]
      unfold crossing
      rw [hbelow j hlt]
  unfold simulate enterCars
  rcases Nat.eq_zero_or_pos i with rfl | hpos
  · rw [Function.update_self, hafter 0 hi]
    simp [arriving]
  · rw [Function.update_of_ne (by omega), hafter i hi]
    simp [arriving, Nat.ne_of_gt hpos]

/-! ## The whole road -/

theorem localSum_succ (len : Nat) (segments : Segments) :
    localSum (len + 1) segments = localSum len segments + segments len := by
  simp [localSum, List.range_succ]

theorem localSum_simulate {len : Nat} (segments : Segments) (n : Nat) {k : Nat} (hk : k < len) :
    localSum (k + 1) (simulate moves offset len segments n) +
        crossing moves offset segments k = localSum (k + 1) segments + n := by
  induction k with
  | zero =>
    have hle := leaving_le (moves (offset + 0)) (segments 0)
    rw [localSum_succ, localSum_succ, simulate_apply moves offset hk]
    simp only [localSum, arriving, crossing, List.range_zero, List.map_nil, List.sum_nil, if_pos]
    omega
  | succ k ih =>
    have hk' := ih (by omega)
    have hle := leaving_le (moves (offset + (k + 1))) (segments (k + 1))
    have hnew := simulate_apply moves offset hk segments n
    unfold arriving at hnew
    rw [if_neg (by omega), Nat.add_sub_cancel] at hnew
    rw [localSum_succ, localSum_succ (k + 1) segments, hnew]
    unfold crossing at *
    omega

variable (roadMoves : Nat → Nat → Nat → Bool) (input : Nat → Nat)

theorem road_segments (len it : Nat) :
    (road roadMoves input len (it + 1)).segments =
      simulate (roadMoves it) 0 len (road roadMoves input len it).segments (input it) := rfl

theorem road_left (len it : Nat) :
    (road roadMoves input len (it + 1)).left = (road roadMoves input len it).left +
      crossing (roadMoves it) 0 (road roadMoves input len it).segments (len - 1) := by
  rw [road, iteration, exitCars_eq]

theorem road_conserves {len : Nat} (hlen : 0 < len) (it : Nat) :
    localSum len (road roadMoves input len it).segments + (road roadMoves input len it).left =
      ((List.range it).map input).sum := by
  induction it with
  | zero => simp [road, localSum]
  | succ it ih =>
    have hsum := localSum_simulate (roadMoves it) 0 (road roadMoves input len it).segments
      (input it) (Nat.sub_lt hlen Nat.one_pos)
    rw [Nat.sub_add_cancel hlen] at hsum
    rw [road_segments, road_left, List.range_succ, List.map_append, List.sum_append, ← ih]
    simp only [List.map_cons, List.map_nil, List.sum_cons, List.sum_nil]
    omega

/-- A part of the road, with the cars that arrive from behind it, is simulated like the
part of the whole road that it is. -/
theorem simulate_slice {len total first : Nat} {segments whole : Segments} {n m : Nat}
    (hslice : ∀ i, i < len → segments i = whole (first + i)) (hlast : first + len ≤ total)
    (hn : n = arriving moves 0 whole m first) {i : Nat} (hi : i < len) :
    simulate moves first len segments n i = simulate moves 0 total whole m (first + i) := by
  have hcross : ∀ j, j < len →
      crossing moves first segments j = crossing moves 0 whole (first + j) := by
    intro j hj
    unfold crossing
    rw [hslice j hj, Nat.zero_add]
  rw [simulate_apply moves first hi, simulate_apply moves 0 (by omega), hslice i hi, hcross i hi]
  congr 1
  rcases Nat.eq_zero_or_pos i with rfl | hpos
  · rw [Nat.add_zero, ← hn]
    simp [arriving]
  · unfold arriving
    rw [if_neg (by omega), if_neg (by omega), hcross (i - 1) (by omega), Nat.add_sub_assoc hpos]

end Nsds.LinearRoad
