import Mathlib.Data.List.Basic
import Mathlib.Logic.Function.Basic
import Nsds.Lib.Transition

/-!
# Event loops

Processes that run one at a time, each until it waits again. A process is run when an event
for it is delivered, in any order. Each has one timer, whose expiry is an event.
-/

namespace EventLoop

open Transition

variable {P E ι σ : Type}

/-- What a process does until it waits again. -/
structure Turn (P E σ : Type) where
  shared : σ
  setTimer : Bool
  posted : List (P × E)

/-- A process gets the event, some input, and whether its timer has expired. There is no
turn if it does something that it may not do. -/
abbrev Program (P E ι σ : Type) := P → E → ι → Bool → σ → Option (Turn P E σ)

/-- What the processes share, which of them go on, and the events that are posted. -/
structure State (P E σ : Type) where
  shared : σ
  running : P → Bool
  pending : List (P × E)

inductive Action where
  | expire
  | post
  | deliver

variable [DecidableEq P] {prog : Program P E ι σ} {timer : E}

def State.run (prog : Program P E ι σ) (s : State P E σ) (p : P) (e : E) (x : ι) :
    Option (State P E σ) :=
  (prog p e x (!s.running p) s.shared).map fun turn => {
    shared := turn.shared
    running := if turn.setTimer then Function.update s.running p true else s.running
    pending := s.pending ++ turn.posted }

/-- Events may also be posted from elsewhere. `none` is after a step that may not be. -/
inductive Step (prog : Program P E ι σ) (timer : E) :
    Option (State P E σ) → Action → Option (State P E σ) → Prop where
  | expire (s : State P E σ) (p : P) (hp : s.running p = true) :
      Step prog timer (some s) .expire (some { s with
        running := Function.update s.running p false
        pending := s.pending ++ [(p, timer)] })
  | post (s : State P E σ) (p : P) (e : E) :
      Step prog timer (some s) .post (some { s with pending := s.pending ++ [(p, e)] })
  | deliver (s : State P E σ) (p : P) (e : E) (x : ι) (pre post : List (P × E))
      (hpending : s.pending = pre ++ (p, e) :: post) :
      Step prog timer (some s) .deliver (State.run prog { s with pending := pre ++ post } p e x)

/-- Events are posted and delivered in any order. -/
def system (prog : Program P E ι σ) (timer : E) (start : Option (State P E σ)) :
    System (Option (State P E σ)) Action where
  start s := s = start
  step := Step prog timer

/-! ## Wake-ups -/

/-- What a turn of `p` is to do. `ready q` is what `q` waits for, besides its timer. -/
structure Considerate (Inv : σ → Prop) (ready : P → σ → Prop) (p : P) (expired : Bool) (shared : σ)
    (turn : Turn P E σ) : Prop where
  keeps : Inv turn.shared
  waits : expired = true → turn.setTimer = true ∨ ¬ ready p turn.shared
  wakes : ∀ q, q ≠ p → ready q turn.shared → ready q shared ∨ ∃ e, (q, e) ∈ turn.posted

/-- What every turn of every process preserves. -/
def Law (prog : Program P E ι σ) (Inv : σ → Prop) (ready : P → σ → Prop) : Prop :=
  ∀ p e x expired shared, Inv shared → ∃ turn, prog p e x expired shared = some turn ∧
    Considerate Inv ready p expired shared turn

/-- A process that is ready is waiting for its timer, or has an event. -/
def Armed (ready : P → σ → Prop) (s : State P E σ) (p : P) : Prop :=
  ready p s.shared → s.running p = true ∨ ∃ e, (p, e) ∈ s.pending

variable {Inv : σ → Prop} {ready : P → σ → Prop} {s : State P E σ}

theorem armed_run (law : Law prog Inv ready) (hinv : Inv s.shared) {p : P}
    (harmed : ∀ q, q ≠ p → Armed ready s q) (e : E) (x : ι) :
    ∃ t, s.run prog p e x = some t ∧ Inv t.shared ∧ ∀ q, Armed ready t q := by
  obtain ⟨turn, hturn, hconsiderate⟩ := law p e x (!s.running p) s.shared hinv
  refine ⟨_, by rw [State.run, hturn, Option.map_some], hconsiderate.keeps, fun q hready => ?_⟩
  have hmono (h : s.running q = true) :
      (if turn.setTimer then Function.update s.running p true else s.running) q = true := by
    rcases eq_or_ne q p with rfl | hne
    · split
      · exact Function.update_self ..
      · exact h
    · split
      · rwa [Function.update_of_ne hne]
      · exact h
  rcases eq_or_ne q p with rfl | hne
  · cases hrunning : s.running q with
    | true => exact .inl (hmono hrunning)
    | false =>
      rcases hconsiderate.waits (by rw [hrunning]; rfl) with hset | hnot
      · exact .inl (by simp [hset])
      · exact absurd hready hnot
  · rcases hconsiderate.wakes q hne hready with hbefore | ⟨e', he'⟩
    · rcases harmed q hne hbefore with hrunning | ⟨e', he'⟩
      · exact .inl (hmono hrunning)
      · exact .inr ⟨e', List.mem_append_left _ he'⟩
    · exact .inr ⟨e', List.mem_append_right _ he'⟩

theorem armed_reachable (law : Law prog Inv ready) {start : Option (State P E σ)}
    (hstart : ∃ s, start = some s ∧ Inv s.shared ∧ ∀ p, Armed ready s p)
    {o : Option (State P E σ)} (h : (system prog timer start).Reachable o) :
    ∃ s, o = some s ∧ Inv s.shared ∧ ∀ p, Armed ready s p := by
  refine h.invariant (fun o => ∃ s, o = some s ∧ Inv s.shared ∧ ∀ p, Armed ready s p) ?_ ?_
  · rintro o rfl
    exact hstart
  · rintro _ a t ⟨s, rfl, hinv, harmed⟩ hstep
    cases hstep with
    | expire _ p hp =>
      refine ⟨_, rfl, hinv, fun q hready => ?_⟩
      rcases eq_or_ne q p with rfl | hne
      · exact .inr ⟨timer, by simp⟩
      · rcases harmed q hready with hrunning | ⟨e, he⟩
        · exact .inl ((Function.update_of_ne hne ..).trans hrunning)
        · exact .inr ⟨e, List.mem_append_left _ he⟩
    | post _ p e =>
      refine ⟨_, rfl, hinv, fun q hready => ?_⟩
      rcases harmed q hready with hrunning | ⟨e', he'⟩
      · exact .inl hrunning
      · exact .inr ⟨e', List.mem_append_left _ he'⟩
    | deliver _ p e x pre post hpending =>
      refine armed_run (s := { s with pending := pre ++ post }) law hinv
        (fun q hne hready => ?_) e x
      rcases harmed q hready with hrunning | ⟨e', he'⟩
      · exact .inl hrunning
      · rw [hpending] at he'
        refine .inr ⟨e', ?_⟩
        simpa [hne] using he'

end EventLoop
