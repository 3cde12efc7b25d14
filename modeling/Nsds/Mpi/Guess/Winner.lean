import Mathlib.Data.List.Nodup
import Mathlib.Order.Nat
import Nsds.Lib.Extrema
import Nsds.Mpi.Guess.Code

/-!
# Who wins a round

`compute_winner` keeps the smallest difference so far, a guess that has it, and whether there
is more than one.
-/

namespace Nsds.Guess

open Extrema

variable {numberToGuess : Int}

/-- How far a guess is from the number. -/
def distance (numberToGuess : Int) (guess : Tuple) : Nat :=
  (numberToGuess - guess.number).natAbs

/-- No other guess is closer. -/
abbrev Closest (numberToGuess : Int) (buffer : List Tuple) (guess : Tuple) : Prop :=
  Least (distance numberToGuess) buffer guess

/-- Two guesses are closest. -/
def Tied (numberToGuess : Int) (buffer : List Tuple) : Prop :=
  ∃ guess other, Closest numberToGuess buffer guess ∧ Closest numberToGuess buffer other ∧
    guess ≠ other

/-- What the variables of the loop say about the guesses so far. -/
structure Search.Found (numberToGuess : Int) (guesses : List Tuple) (search : Search) :
    Prop where
  winner : ∃ guess, Closest numberToGuess guesses guess ∧ guess.source = search.winner ∧
    distance numberToGuess guess = search.min
  multiple : search.multipleGuess = true ↔ Tied numberToGuess guesses

theorem Search.turn_eq (search : Search) (guess : Tuple) :
    search.turn numberToGuess guess =
      if distance numberToGuess guess < search.min then
        { min := distance numberToGuess guess, winner := guess.source, multipleGuess := false }
      else if distance numberToGuess guess = search.min then { search with multipleGuess := true }
      else search := rfl

theorem Search.Found.first {guess : Tuple} {search : Search}
    (h : distance numberToGuess guess < search.min) :
    (search.turn numberToGuess guess).Found numberToGuess [guess] := by
  rw [Search.turn_eq, if_pos h]
  refine ⟨⟨guess, least_singleton.mpr rfl, rfl, rfl⟩, ?_⟩
  simp [Tied, least_singleton]

theorem Search.Found.turn {guesses : List Tuple} {search : Search}
    (h : search.Found numberToGuess guesses) {guess : Tuple} (hnew : guess ∉ guesses) :
    (search.turn numberToGuess guess).Found numberToGuess (guesses ++ [guess]) := by
  obtain ⟨best, hbest, hsource, hmin⟩ := h.winner
  have hmultiple := h.multiple
  rw [Search.turn_eq, ← hmin]
  rcases lt_trichotomy (distance numberToGuess guess) (distance numberToGuess best)
    with hlt | heq | hgt
  · rw [if_pos hlt]
    refine ⟨⟨guess, (least_append_of_lt hbest hlt).mpr rfl, rfl, rfl⟩, ?_⟩
    simp [Tied, least_append_of_lt hbest hlt]
  · rw [if_neg heq.not_lt, if_pos heq]
    have hbest' := hbest.append_of_le heq.ge
    have hguess := (least_append_of_eq hbest heq).mpr (.inr rfl)
    refine ⟨⟨best, hbest', hsource, rfl⟩, iff_of_true rfl ⟨best, guess, hbest', hguess, ?_⟩⟩
    rintro rfl
    exact hnew hbest.1
  · rw [if_neg hgt.not_gt, if_neg hgt.ne']
    refine ⟨⟨best, hbest.append_of_le hgt.le, hsource, hmin⟩, ?_⟩
    rw [hmultiple]
    unfold Tied
    simp only [Closest, least_append_of_gt hbest hgt]

theorem Search.Found.foldl {guesses rest : List Tuple} {search : Search}
    (h : search.Found numberToGuess guesses) (hnodup : (guesses ++ rest).Nodup) :
    (rest.foldl (Search.turn numberToGuess) search).Found numberToGuess (guesses ++ rest) := by
  induction rest generalizing guesses search with
  | nil => rwa [List.append_nil]
  | cons guess rest ih =>
    rw [List.append_cons] at hnodup ⊢
    have hnew : guess ∉ guesses := by
      have := (List.nodup_append.mp hnodup).1
      simp only [List.nodup_append] at this
      grind
    exact ih (h.turn hnew) hnodup

theorem eq_of_not_tied {buffer : List Tuple} (h : ¬ Tied numberToGuess buffer) {guess other : Tuple}
    (hguess : Closest numberToGuess buffer guess) (hother : Closest numberToGuess buffer other) :
    other = guess := by
  by_contra hne
  exact h ⟨other, guess, hother, hguess, hne⟩

theorem computeWinner_eq {buffer : List Tuple} (hne : buffer ≠ []) (hnodup : buffer.Nodup)
    (hmax : ∀ guess ∈ buffer, distance numberToGuess guess < intMax) :
    ∃ best, Closest numberToGuess buffer best ∧
      (Tied numberToGuess buffer → computeWinner numberToGuess buffer = -1) ∧
      (¬ Tied numberToGuess buffer → computeWinner numberToGuess buffer = best.source) := by
  obtain ⟨first, rest, rfl⟩ := List.exists_cons_of_ne_nil hne
  let start : Search := { min := intMax, winner := -1, multipleGuess := false }
  have hstart : (start.turn numberToGuess first).Found numberToGuess [first] :=
    .first (hmax first List.mem_cons_self)
  have hfound := hstart.foldl (show ([first] ++ rest).Nodup from hnodup)
  obtain ⟨best, hbest, hwinner, -⟩ := hfound.winner
  refine ⟨best, hbest, fun htied => ?_, fun htied => ?_⟩
  · exact if_pos (hfound.multiple.mpr htied)
  · rw [hwinner]
    exact if_neg (mt hfound.multiple.mp htied)

/-- The winner is the source of the only closest guess, and `-1` stands for a tie. -/
theorem compute_winner_correct (numberToGuess : Int) (buffer : List Tuple) (hne : buffer ≠ [])
    (hdistinct : (buffer.map Tuple.source).Nodup) (hsource : ∀ guess ∈ buffer, 0 ≤ guess.source)
    (hmax : ∀ guess ∈ buffer, distance numberToGuess guess < intMax) :
    (∀ s, s ∈ buffer.map Tuple.source → (computeWinner numberToGuess buffer = s ↔
      ∃ guess, Closest numberToGuess buffer guess ∧ guess.source = s ∧
        ∀ other, Closest numberToGuess buffer other → other = guess)) ∧
    (computeWinner numberToGuess buffer = -1 ↔ Tied numberToGuess buffer) := by
  obtain ⟨best, hbest, hcompute, hcompute'⟩ :=
    computeWinner_eq hne (List.Nodup.of_map _ hdistinct) hmax
  by_cases htied : Tied numberToGuess buffer
  · rw [hcompute htied]
    refine ⟨fun s hs => ?_, iff_of_true rfl htied⟩
    obtain ⟨guess, hguess, rfl⟩ := List.mem_map.mp hs
    refine iff_of_false (by have := hsource guess hguess; omega) ?_
    rintro ⟨only, -, -, honly⟩
    obtain ⟨a, b, ha, hb, hab⟩ := htied
    exact hab ((honly a ha).trans (honly b hb).symm)
  · rw [hcompute' htied]
    refine ⟨fun s _ => ⟨?_, ?_⟩, iff_of_false ?_ htied⟩
    · rintro rfl
      exact ⟨best, hbest, rfl, fun other hother => eq_of_not_tied htied hbest hother⟩
    · rintro ⟨guess, hguess, rfl, -⟩
      rw [eq_of_not_tied htied hbest hguess]
    · have := hsource best hbest.1
      omega

theorem compute_winner_correct_three :
    ¬ Tied 10 [⟨0, 4⟩, ⟨1, 13⟩, ⟨2, 16⟩] ∧ Tied 10 [⟨0, 4⟩, ⟨1, 13⟩, ⟨2, 7⟩] := by
  constructor
  · have h := (compute_winner_correct 10 [⟨0, 4⟩, ⟨1, 13⟩, ⟨2, 16⟩] (by simp) (by decide)
      (by decide) (by decide)).2
    exact mt h.mpr (by decide)
  · have h := (compute_winner_correct 10 [⟨0, 4⟩, ⟨1, 13⟩, ⟨2, 7⟩] (by simp) (by decide)
      (by decide) (by decide)).2
    exact h.mp (by decide)

end Nsds.Guess
