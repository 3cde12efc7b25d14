/-!
# Loops in lockstep

A loop that may stop, seen turn by turn. Two loops whose turns do the same to related
states are related forever, and stop together.
-/

namespace Lockstep

variable {σ τ : Type}

/-- What the loop has after `n` turns, if it comes to that. -/
def after (next : σ → Option σ) (start : Option σ) : (n : Nat) → Option σ
  | 0 => start
  | n + 1 => (after next start n).bind next

section

variable {next : σ → Option σ} {start : Option σ}

theorem after_safe {P : σ → Prop} (hstart : ∀ s, start = some s → P s)
    (hnext : ∀ s t, P s → next s = some t → P t) {n : Nat} {s : σ}
    (h : after next start n = some s) : P s := by
  induction n generalizing s with
  | zero => exact hstart s h
  | succ n ih =>
    obtain ⟨r, hr, hs⟩ := Option.bind_eq_some_iff.mp h
    exact hnext r s (ih hr) hs

theorem after_some {I : Nat → σ → Prop} (hstart : ∃ s, start = some s ∧ I 0 s)
    (hnext : ∀ n s, after next start n = some s → I n s → ∃ t, next s = some t ∧ I (n + 1) t)
    (n : Nat) : ∃ s, after next start n = some s ∧ I n s := by
  induction n with
  | zero => exact hstart
  | succ n ih =>
    obtain ⟨s, hs, hI⟩ := ih
    obtain ⟨t, ht, hI⟩ := hnext n s hs hI
    exact ⟨t, by rw [after, hs, Option.bind_some, ht], hI⟩

end

variable {R : σ → τ → Prop} {next : σ → Option σ} {next' : τ → Option τ} {start : Option σ}
  {start' : Option τ}

theorem after_rel (hstart : Option.Rel R start start')
    (hnext : ∀ s t, R s t → Option.Rel R (next s) (next' t)) (n : Nat) :
    Option.Rel R (after next start n) (after next' start' n) := by
  induction n with
  | zero => exact hstart
  | succ n ih =>
    rw [after, after]
    generalize after next start n = a, after next' start' n = b at ih
    cases ih with
    | none => exact .none
    | some h => exact hnext _ _ h

theorem after_eq_none (hnext : start.bind next = none) (n : Nat) :
    after next start (n + 1) = none := by
  induction n with
  | zero => exact hnext
  | succ n ih => rw [after, ih, Option.bind_none]

theorem after_of_next {f : Nat → σ} {condition : Nat → Bool}
    (hnext : ∀ n, next (f n) = if condition n then some (f (n + 1)) else none) (n : Nat) :
    after next (some (f 0)) n = if ∀ m < n, condition m then some (f n) else none := by
  induction n with
  | zero => simp [after]
  | succ n ih =>
    rw [after, ih]
    by_cases h : ∀ m < n, condition m = true
    · rw [if_pos h, Option.bind_some, hnext]
      by_cases hn : condition n = true
      · have hall : ∀ m < n + 1, condition m = true := by
          intro m hm
          rcases Nat.lt_succ_iff_lt_or_eq.mp hm with hm | rfl
          · exact h m hm
          · exact hn
        rw [if_pos hn, if_pos hall]
      · rw [if_neg hn, if_neg fun hall => hn (hall n (Nat.lt_succ_self n))]
    · rw [if_neg h, Option.bind_none,
        if_neg fun hall => h fun m hm => hall m (Nat.lt_succ_of_lt hm)]

end Lockstep
