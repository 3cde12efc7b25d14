/-!
# Transition systems

A system is where its runs start and what one step may do. Everything about
whole runs is proved here once, from what a single step preserves.
-/

namespace Transition

/-- States `σ`, and steps that carry a label of `ℓ`. -/
structure System (σ ℓ : Type) where
  start : σ → Prop
  step : σ → ℓ → σ → Prop

namespace System

variable {σ τ ℓ κ : Type}

/-- What some run from a start leads to. -/
inductive Reachable (sys : System σ ℓ) : σ → Prop where
  | start {s : σ} : sys.start s → Reachable sys s
  | step {s t : σ} {l : ℓ} : Reachable sys s → sys.step s l t → Reachable sys t

/-- A run of `sys` from one state to another, with the labels of its steps in order. -/
inductive Run (sys : System σ ℓ) : σ → List ℓ → σ → Prop where
  | nil (s : σ) : Run sys s [] s
  | cons {s t u : σ} {l : ℓ} {ls : List ℓ} : sys.step s l t → Run sys t ls u → Run sys s (l :: ls) u

/-- No step leaves `s`. -/
def Stuck (sys : System σ ℓ) (s : σ) : Prop := ∀ l t, ¬ sys.step s l t

/-- The runs of `sys` in which every step also satisfies `ok`. -/
def restrict (sys : System σ ℓ) (ok : σ → ℓ → Prop) : System σ ℓ where
  start := sys.start
  step s l t := ok s l ∧ sys.step s l t

theorem Run.append {sys : System σ ℓ} {s t u : σ} {ls ms : List ℓ} (h : sys.Run s ls t)
    (h' : sys.Run t ms u) : sys.Run s (ls ++ ms) u := by
  induction h with
  | nil => exact h'
  | cons hs _ ih => exact .cons hs (ih h')

theorem Run.single {sys : System σ ℓ} {s t : σ} {l : ℓ} (h : sys.step s l t) : sys.Run s [l] t :=
  .cons h (.nil t)

/-! ## Invariants -/

theorem Reachable.invariant {sys : System σ ℓ} (inv : σ → Prop)
    (start : ∀ s, sys.start s → inv s)
    (step : ∀ s l t, inv s → sys.step s l t → inv t) {s : σ} (h : sys.Reachable s) : inv s := by
  induction h with
  | start h => exact start _ h
  | step _ h ih => exact step _ _ _ ih h

theorem Reachable.run {sys : System σ ℓ} {s t : σ} {ls : List ℓ} (h : sys.Reachable s)
    (r : sys.Run s ls t) : sys.Reachable t := by
  induction r with
  | nil => exact h
  | cons hs _ ih => exact ih (h.step hs)

theorem Run.invariant {sys : System σ ℓ} (inv : σ → Prop)
    (step : ∀ s l t, sys.Reachable s → inv s → sys.step s l t → inv t) {s t : σ} {ls : List ℓ}
    (hs : sys.Reachable s) (h : inv s) (r : sys.Run s ls t) : inv t := by
  induction r with
  | nil => exact h
  | cons hstep _ ih => exact ih (hs.step hstep) (step _ _ _ hs h hstep)

theorem Run.invariant_of_labels {sys : System σ ℓ} {ok : ℓ → Prop} (inv : σ → Prop)
    (step : ∀ s l t, sys.Reachable s → inv s → ok l → sys.step s l t → inv t) {s t : σ}
    {ls : List ℓ} (hs : sys.Reachable s) (h : inv s) (r : sys.Run s ls t)
    (hok : ∀ l ∈ ls, ok l) : inv t := by
  induction r with
  | nil => exact h
  | cons hstep _ ih =>
    rw [List.forall_mem_cons] at hok
    exact ih (hs.step hstep) (step _ _ _ hs h hok.1 hstep) hok.2

theorem Reachable.of_restrict {sys : System σ ℓ} {ok : σ → ℓ → Prop} {s : σ}
    (h : (sys.restrict ok).Reachable s) : sys.Reachable s := by
  induction h with
  | start h => exact .start h
  | step _ h ih => exact ih.step h.2

theorem Reachable.restrict {sys : System σ ℓ} {ok : σ → ℓ → Prop} {s : σ}
    (h : sys.Reachable s) (hok : ∀ s l, ok s l) : (sys.restrict ok).Reachable s := by
  induction h with
  | start h => exact .start h
  | step _ h ih => exact ih.step ⟨hok _ _, h⟩

theorem Reachable.restrict_step {sys : System σ ℓ} {ok : σ → ℓ → Prop} {s t : σ} {l : ℓ}
    (h : (sys.restrict ok).Reachable s) (hstep : sys.step s l t) (hok : ok s l) :
    (sys.restrict ok).Reachable t := h.step ⟨hok, hstep⟩

theorem Reachable.ends {sys : System σ ℓ} {α : Type} {r : α → α → Prop} (hr : WellFounded r)
    (rank : σ → α) (step : ∀ s l t, sys.Reachable s → sys.step s l t → r (rank t) (rank s))
    {run : Nat → σ} (h : sys.Reachable (run 0)) : ∃ n, ∀ l, ¬ sys.step (run n) l (run (n + 1)) := by
  apply Classical.byContradiction
  intro hnot
  have hsteps : ∀ n, ∃ l, sys.step (run n) l (run (n + 1)) := by
    intro n
    apply Classical.byContradiction
    exact fun hn => hnot ⟨n, fun l hl => hn ⟨l, hl⟩⟩
  have hreachable : ∀ n, sys.Reachable (run n) := by
    intro n
    induction n with
    | zero => exact h
    | succ n ih => exact ih.step (hsteps n).choose_spec
  have hacc : ∀ a n, rank (run n) = a → False := by
    intro a
    induction a using hr.induction with
    | _ a ih =>
      rintro n rfl
      obtain ⟨l, hl⟩ := hsteps n
      exact ih _ (step _ l _ (hreachable n) hl) (n + 1) rfl
  exact hacc _ 0 rfl

end System

end Transition
