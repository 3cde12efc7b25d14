import Nsds.Lib.Transition

/-!
# Loops that may crash between two calls

A process takes an input, makes the calls that its loop body makes for it, and
starts over. It can crash before every call, and a call that throws ends it too.
What survives is the state of the services it calls. `Calls` is the triple for
such a body, with a condition for a crash beside the one for the end.
-/

open Transition

namespace CrashLoop

variable {σ κ ρ ν α : Type}

/-- From `s`, the state satisfies `crash` after every call, and `post` after the last. -/
def Calls (call : σ → κ → Option σ) (crash post : σ → Prop) : List κ → σ → Prop
  | [], s => post s
  | c :: cs, s => ∀ s', call s c = some s' → crash s' ∧ Calls call crash post cs s'

section

variable {call : σ → κ → Option σ} {crash post post' : σ → Prop}

theorem Calls.mono {cs : List κ} {s : σ} (h : Calls call crash post cs s)
    (hpost : ∀ s, post s → post' s) : Calls call crash post' cs s := by
  induction cs generalizing s with
  | nil => exact hpost s h
  | cons c cs ih =>
    intro s' hs'
    exact ⟨(h s' hs').1, ih (h s' hs').2⟩

theorem Calls.append {cs ds : List κ} {s : σ}
    (h : Calls call crash (fun s => Calls call crash post ds s) cs s) :
    Calls call crash post (cs ++ ds) s := by
  induction cs generalizing s with
  | nil => exact h
  | cons c cs ih =>
    intro s' hs'
    exact ⟨(h s' hs').1, ih (h s' hs').2⟩

/-- A `for` loop: `inv` says what holds once the elements `done` are over. -/
theorem Calls.flatMap {f : α → List κ} (inv : List α → σ → Prop)
    (step : ∀ done x s, inv done s → Calls call crash (inv (done ++ [x])) (f x) s)
    (done xs : List α) {s : σ} (h : inv done s) :
    Calls call crash (inv (done ++ xs)) (xs.flatMap f) s := by
  induction xs generalizing done s with
  | nil => simpa [Calls] using h
  | cons x xs ih =>
    rw [List.flatMap_cons]
    apply Calls.append
    apply (step done x s h).mono
    intro s' hs'
    have := ih (done ++ [x]) hs'
    rwa [List.append_assoc] at this

end

/-- The state after the calls, or at the first one that throws, and whether all were made. -/
def execute (call : σ → κ → Option σ) : List κ → σ → σ × Bool
  | [], s => (s, true)
  | c :: cs, s =>
    match call s c with
    | none => (s, false)
    | some s' => execute call cs s'

/-- `input` is what one input does to the services, and `body` the calls that the
loop body makes for it, from the loop's variables, with their values afterwards. -/
structure Loop (σ κ ρ ν : Type) where
  call : σ → κ → Option σ
  restart : σ → σ
  input : σ → ρ → σ → Prop
  fresh : ν
  body : ν → ρ → List κ × ν

/-- The services, and the process while it is up: its variables and the calls still to make. -/
structure State (σ κ ν : Type) where
  service : σ
  process : Option (ν × List κ)

inductive Action (ρ : Type) where
  | restart
  | input (r : ρ)
  | call
  | throw
  | crash

/-- One call, one input, or the end of the process. -/
inductive Step (loop : Loop σ κ ρ ν) : State σ κ ν → Action ρ → State σ κ ν → Prop where
  | restart (s : σ) : Step loop ⟨s, none⟩ .restart ⟨loop.restart s, some (loop.fresh, [])⟩
  | input (s s' : σ) (v : ν) (r : ρ) (hr : loop.input s r s') :
      Step loop ⟨s, some (v, [])⟩ (.input r) ⟨s', some ((loop.body v r).2, (loop.body v r).1)⟩
  | call (s s' : σ) (v : ν) (c : κ) (cs : List κ) (hc : loop.call s c = some s') :
      Step loop ⟨s, some (v, c :: cs)⟩ .call ⟨s', some (v, cs)⟩
  | throw (s : σ) (v : ν) (c : κ) (cs : List κ) (hc : loop.call s c = none) :
      Step loop ⟨s, some (v, c :: cs)⟩ .throw ⟨s, none⟩
  | crash (s : σ) (p : ν × List κ) : Step loop ⟨s, some p⟩ .crash ⟨s, none⟩

/-- The loop in any run, with any crashes. It starts with the process down. -/
def Loop.system (loop : Loop σ κ ρ ν) (initial : σ → Prop) :
    System (State σ κ ν) (Action ρ) where
  start s := initial s.service ∧ s.process = none
  step := Step loop

/-- `crash` holds at any time, and `idle` whenever the loop is about to take an input.
Only inputs that satisfy `ok` are covered. -/
structure Safe (loop : Loop σ κ ρ ν) (ok : ν → σ → ρ → Prop) (crash : σ → Prop)
    (idle : ν → σ → Prop) : Prop where
  restart : ∀ s, crash s → crash (loop.restart s) ∧ idle loop.fresh (loop.restart s)
  input : ∀ v s r s', crash s → idle v s → loop.input s r s' → ok v s r →
    crash s' ∧ Calls loop.call crash (idle (loop.body v r).2) (loop.body v r).1 s'

/-- What `ok` says about the inputs, as a condition on the steps of a run. -/
def InputOk (ok : ν → σ → ρ → Prop) (s : State σ κ ν) (a : Action ρ) : Prop :=
  ∀ v cs r, s.process = some (v, cs) → a = .input r → ok v s.service r

variable {loop : Loop σ κ ρ ν} {ok : ν → σ → ρ → Prop} {crash : σ → Prop} {idle : ν → σ → Prop}
  {initial : σ → Prop}

/-! ## Runs -/

/-- The runs in which all inputs satisfy `ok`. -/
abbrev Loop.runs (loop : Loop σ κ ρ ν) (initial : σ → Prop) (ok : ν → σ → ρ → Prop) :
    System (State σ κ ν) (Action ρ) :=
  (loop.system initial).restrict (InputOk ok)

theorem reachable_restart {s : σ} (h : (loop.runs initial ok).Reachable ⟨s, none⟩) :
    (loop.runs initial ok).Reachable ⟨loop.restart s, some (loop.fresh, [])⟩ :=
  h.step ⟨fun _ _ _ hp => (by cases hp), .restart s⟩

theorem reachable_input {s s' : σ} {v : ν} {r : ρ}
    (h : (loop.runs initial ok).Reachable ⟨s, some (v, [])⟩) (hr : loop.input s r s')
    (hok : ok v s r) :
    (loop.runs initial ok).Reachable ⟨s', some ((loop.body v r).2, (loop.body v r).1)⟩ := by
  refine h.step ⟨?_, .input s s' v r hr⟩
  rintro _ _ _ hp ha
  cases hp
  cases ha
  exact hok

theorem reachable_calls {s s' : σ} {v : ν} (cs : List κ) {ds : List κ}
    (h : (loop.runs initial ok).Reachable ⟨s, some (v, cs ++ ds)⟩)
    (hrun : cs.foldlM loop.call s = some s') :
    (loop.runs initial ok).Reachable ⟨s', some (v, ds)⟩ := by
  induction cs generalizing s with
  | nil => cases hrun; exact h
  | cons c cs ih =>
    rw [List.foldlM_cons] at hrun
    obtain ⟨s1, hc, hrest⟩ := Option.bind_eq_some_iff.mp hrun
    refine ih (h.step ⟨?_, .call s s1 v c (cs ++ ds) hc⟩) hrest
    rintro _ _ _ - ha
    cases ha

theorem reachable_execute {s : σ} {v : ν} {cs : List κ}
    (h : (loop.runs initial ok).Reachable ⟨s, some (v, cs)⟩) :
    (loop.runs initial ok).Reachable ⟨(execute loop.call cs s).1,
      if (execute loop.call cs s).2 then some (v, []) else none⟩ := by
  induction cs generalizing s with
  | nil => exact h
  | cons c cs ih =>
    rw [execute]
    cases hc : loop.call s c with
    | none =>
      refine h.step ⟨?_, .throw s v c cs hc⟩
      rintro _ _ _ - ha
      cases ha
    | some s' =>
      refine ih (h.step ⟨?_, .call s s' v c cs hc⟩)
      rintro _ _ _ - ha
      cases ha

theorem reachable_runs {s : State σ κ ν} (h : (loop.system initial).Reachable s) :
    (loop.runs initial fun _ _ _ => True).Reachable s :=
  h.restrict fun _ _ _ _ _ _ _ => trivial

/-! ## Invariants -/

/-- What holds of the services, and of what the process is still going to do. -/
def Inv (loop : Loop σ κ ρ ν) (crash : σ → Prop) (idle : ν → σ → Prop) (s : State σ κ ν) : Prop :=
  crash s.service ∧
    ∀ v cs, s.process = some (v, cs) → Calls loop.call crash (idle v) cs s.service

theorem Safe.step_inv (h : Safe loop ok crash idle) {s t : State σ κ ν} {a : Action ρ}
    (hs : Inv loop crash idle s) (hok : InputOk ok s a) (hstep : Step loop s a t) :
    Inv loop crash idle t := by
  obtain ⟨hcrash, hcalls⟩ := hs
  cases hstep with
  | restart s =>
    refine ⟨(h.restart s hcrash).1, fun v cs hp => ?_⟩
    cases hp
    exact (h.restart s hcrash).2
  | input s s' v r hr =>
    obtain ⟨hcrash', hcalls'⟩ :=
      h.input v s r s' hcrash (hcalls v [] rfl) hr (hok v [] r rfl rfl)
    refine ⟨hcrash', fun w cs hp => ?_⟩
    cases hp
    exact hcalls'
  | call s s' v c cs hc =>
    obtain ⟨hcrash', hrest⟩ := hcalls v (c :: cs) rfl s' hc
    refine ⟨hcrash', fun w ds hp => ?_⟩
    cases hp
    exact hrest
  | throw => exact ⟨hcrash, fun _ _ hp => by cases hp⟩
  | crash => exact ⟨hcrash, fun _ _ hp => by cases hp⟩

theorem Safe.invariant (h : Safe loop ok crash idle) (hinit : ∀ s, initial s → crash s)
    {s : State σ κ ν} (hs : (loop.runs initial ok).Reachable s) :
    Inv loop crash idle s := by
  refine hs.invariant (Inv loop crash idle) ?_ ?_
  · rintro s ⟨hs, hp⟩
    exact ⟨hinit s.service hs, fun v cs hp' => by rw [hp] at hp'; cases hp'⟩
  · rintro s a t hs ⟨hok, hstep⟩
    exact h.step_inv hs hok hstep

theorem Safe.reachable (h : Safe loop (fun _ _ _ => True) crash idle)
    (hinit : ∀ s, initial s → crash s) {s : State σ κ ν} (hs : (loop.system initial).Reachable s) :
    Inv loop crash idle s :=
  h.invariant hinit (reachable_runs hs)

end CrashLoop
