import Mathlib.Data.List.Chain
import Mathlib.Data.List.DropRight
import Nsds.Akka.Lab5
import Nsds.Lib.MachineInt

/-!
# `Akka/NSDS_akka_tutorial_and_lab`, package `com.faultTolerance.counter`

A counter (`CounterActor.java`) that fails when it is told to, under a supervisor
(`CounterSupervisorActor.java`) that restarts it. Times are in milliseconds.
-/

namespace Nsds.FaultTolerance

open History MachineInt Transition
open Lab5 (Directive)

def FAULT_OP : Int := -1

def NORMAL_OP : Int := 0

inductive Exn where
  | actorFault
deriving DecidableEq, Repr

/-- What the counter prints. -/
inductive Line where
  | normal (counter : Int)
  | fault
  | preparingToRestart
  | nowRestarted
deriving DecidableEq, Repr

/-! ## `CounterActor` -/

namespace CounterActor

def new : Int := 0

/-- What is printed comes first. Other codes do nothing. -/
def onMessage (counter code : Int) : List Line × Except Exn Int :=
  if code = NORMAL_OP then
    ([.normal (wrap 32 (counter + 1))], .ok (wrap 32 (counter + 1)))
  else if code = FAULT_OP then ([.fault], .error .actorFault)
  else ([], .ok counter)

def preRestart : List Line := [.preparingToRestart]

def postRestart : List Line := [.nowRestarted]

end CounterActor

/-! ## `CounterSupervisorActor` -/

namespace CounterSupervisorActor

def retryNumber : Nat := 1

/-- `Duration.ofMinutes(timeLength)`. -/
def timeLength : Nat := 60000

/-- `DeciderBuilder.match(Exception.class, e -> SupervisorStrategy.restart())`. -/
def decider (_ : Exn) : Directive := .restart

end CounterSupervisorActor

open CounterSupervisorActor (retryNumber timeLength)

/-- The restarts of a child in the window that began at `windowStart`. -/
structure RestartStats where
  restarts : Nat
  windowStart : Option Nat
deriving DecidableEq, Repr

/-- Whether a `OneForOneStrategy` restarts a child at the time `now`. A restart out of a window
begins another. -/
def RestartStats.request (stats : RestartStats) (now : Nat) : RestartStats × Bool :=
  if now - stats.windowStart.getD now ≤ timeLength then
    ({ restarts := stats.restarts + 1, windowStart := some (stats.windowStart.getD now) },
      decide (stats.restarts + 1 ≤ retryNumber))
  else ({ restarts := 1, windowStart := some now }, true)

/-- A child as its supervisor has it. -/
structure Child where
  counter : Int
  stats : RestartStats
deriving DecidableEq, Repr

/-- What becomes of a child that failed, and what it prints then. -/
def supervise (child : Child) (now : Nat) : Directive → Option Child × List Line
  | .resume => (some child, [])
  | .restart =>
    match child.stats.request now with
    | (stats, true) =>
      (some { counter := CounterActor.new, stats := stats },
        CounterActor.preRestart ++ CounterActor.postRestart)
    | (_, false) => (none, [])
  | .stop => (none, [])
  | .escalate => (none, [])

/-! ## The system -/

/-- A message that was handled, when, and what was printed. -/
structure Entry where
  time : Nat
  code : Int
  lines : List Line
deriving DecidableEq, Repr

/-- What is in the mailbox of a child that was stopped is not handled any more. -/
structure State where
  now : Nat
  child : Option Child
  mailbox : List Int
  arrived : List Int
  handled : List Entry
deriving DecidableEq, Repr

/-- The child takes `code` from its mailbox, and the supervisor restarts or stops it if that
fails. -/
def State.handle (s : State) (child : Child) (code : Int) (rest : List Int) : State :=
  match CounterActor.onMessage child.counter code with
  | (lines, .ok counter) =>
    { s with
      child := some { child with counter := counter }
      mailbox := rest
      handled := s.handled ++ [{ time := s.now, code := code, lines := lines }] }
  | (lines, .error exn) =>
    match supervise child s.now (CounterSupervisorActor.decider exn) with
    | (child, more) =>
      { s with
        child := child
        mailbox := rest
        handled := s.handled ++ [{ time := s.now, code := code, lines := lines ++ more }] }

inductive Action where
  | tick
  | tell (code : Int)
  | handle (code : Int)

inductive Step (s : State) : Action → State → Prop where
  | tick : Step s .tick { s with now := s.now + 1 }
  | tell (code : Int) :
      Step s (.tell code) { s with mailbox := s.mailbox ++ [code], arrived := s.arrived ++ [code] }
  | handle (child : Child) (code : Int) (rest : List Int) (hchild : s.child = some child)
      (hm : s.mailbox = code :: rest) : Step s (.handle code) (s.handle child code rest)

/-- The counter has been created, and no time has passed. -/
def system : System State Action where
  start s := s = {
    now := 0
    child := some { counter := CounterActor.new, stats := { restarts := 0, windowStart := none } }
    mailbox := []
    arrived := []
    handled := [] }
  step := Step

/-! ## What the supervisor is for -/

/-- When the counter failed. -/
def faults (handled : List Entry) : List Nat :=
  (handled.filter fun entry => entry.code = FAULT_OP).map Entry.time

/-- Every two faults in a row are more than a minute apart. -/
def Spaced (times : List Nat) : Prop := times.IsChain fun t t' => t + timeLength < t'

instance (times : List Nat) : Decidable (Spaced times) :=
  inferInstanceAs (Decidable (times.IsChain fun t t' => t + timeLength < t'))

/-- How many normal operations there were since the last fault. -/
def sinceFault (handled : List Entry) : Nat :=
  (handled.rtakeWhile fun entry => entry.code ≠ FAULT_OP).countP fun entry =>
    entry.code = NORMAL_OP

/-- What a message prints after those in `pre`. -/
def Printed (pre : List Entry) (entry : Entry) : Prop :=
  entry.lines =
    if entry.code = NORMAL_OP then [.normal (wrap 32 (sinceFault pre + 1))]
    else if entry.code = FAULT_OP then
      if Spaced (faults (pre ++ [entry])) then [.fault, .preparingToRestart, .nowRestarted]
      else [.fault]
    else []

/-- The messages are handled in order, and up to the first fault that comes too early. -/
structure Supervised (s : State) : Prop where
  inOrder : s.arrived = s.handled.map Entry.code ++ s.mailbox
  alive : s.child ≠ none ↔ Spaced (faults s.handled)
  stopped : s.child = none → ∃ pre entry, s.handled = pre ++ [entry] ∧ entry.code = FAULT_OP ∧
    Spaced (faults pre)
  printed : Each Printed s.handled

/-! ## Lists of what was handled -/

theorem fault_ne_normal : FAULT_OP ≠ NORMAL_OP := by decide

theorem faults_append_fault (pre : List Entry) (time : Nat) (lines : List Line) :
    faults (pre ++ [{ time := time, code := FAULT_OP, lines := lines }]) =
      faults pre ++ [time] := by
  simp [faults]

theorem faults_append_other (pre : List Entry) (time : Nat) {code : Int} (lines : List Line)
    (h : code ≠ FAULT_OP) :
    faults (pre ++ [{ time := time, code := code, lines := lines }]) = faults pre := by
  simp [faults, h]

theorem sinceFault_append_fault (pre : List Entry) (time : Nat) (lines : List Line) :
    sinceFault (pre ++ [{ time := time, code := FAULT_OP, lines := lines }]) = 0 := by
  unfold sinceFault
  rw [List.rtakeWhile_concat_neg _ _ _ (by simp)]
  rfl

theorem sinceFault_append_other (pre : List Entry) (time : Nat) {code : Int} (lines : List Line)
    (h : code ≠ FAULT_OP) :
    sinceFault (pre ++ [{ time := time, code := code, lines := lines }]) =
      sinceFault pre + if code = NORMAL_OP then 1 else 0 := by
  unfold sinceFault
  rw [List.rtakeWhile_concat_pos _ _ _ (by simpa using h), List.countP_append]
  simp [List.countP_singleton]

theorem spaced_append_singleton (times : List Nat) (now : Nat) :
    Spaced (times ++ [now]) ↔ Spaced times ∧ ∀ t ∈ times.getLast?, t + timeLength < now := by
  unfold Spaced
  rw [List.isChain_append]
  simp

/-! ## Restarts -/

/-- What is known of the restarts after the last fault. -/
def statsAfter : Option Nat → RestartStats
  | none => { restarts := 0, windowStart := none }
  | some t => { restarts := 1, windowStart := some t }

theorem request_of_late {last : Option Nat} {now : Nat}
    (h : ∀ t ∈ last, t + timeLength < now) :
    (statsAfter last).request now = (statsAfter (some now), true) := by
  cases last with
  | none => simp [statsAfter, RestartStats.request, retryNumber]
  | some t =>
    have hlate : ¬ now - t ≤ timeLength := by
      have := h t rfl
      omega
    simp [statsAfter, RestartStats.request, hlate]

theorem request_of_early {t now : Nat} (h : now ≤ t + timeLength) :
    ((statsAfter (some t)).request now).2 = false := by
  have hearly : now - t ≤ timeLength := by omega
  simp [statsAfter, RestartStats.request, hearly, retryNumber]

theorem supervise_of_late {child : Child} {last : Option Nat} {now : Nat}
    (hstats : child.stats = statsAfter last) (h : ∀ t ∈ last, t + timeLength < now) :
    supervise child now .restart =
      (some { counter := CounterActor.new, stats := statsAfter (some now) },
        [.preparingToRestart, .nowRestarted]) := by
  simp only [supervise, hstats, request_of_late h]
  rfl

theorem supervise_of_early {child : Child} {last : Option Nat} {now : Nat}
    (hstats : child.stats = statsAfter last) (h : ¬ ∀ t ∈ last, t + timeLength < now) :
    supervise child now .restart = (none, []) := by
  cases last with
  | none => exact absurd (fun t ht => by cases ht) h
  | some t =>
    have hearly := @request_of_early t now (by simpa using h)
    simp only [supervise, hstats]
    split
    · next heq => rw [heq] at hearly; cases hearly
    · rfl

/-! ## The invariant -/

/-- The counter has what came since the last fault that made it restart. -/
structure Inv (s : State) : Prop where
  supervised : Supervised s
  counter : ∀ child, s.child = some child → child.counter = wrap 32 (sinceFault s.handled)
  stats : ∀ child, s.child = some child → child.stats = statsAfter (faults s.handled).getLast?

theorem State.handle_normal (s : State) (child : Child) (rest : List Int) :
    s.handle child NORMAL_OP rest = { s with
      child := some { child with counter := wrap 32 (child.counter + 1) }
      mailbox := rest
      handled := s.handled ++ [{
        time := s.now, code := NORMAL_OP, lines := [.normal (wrap 32 (child.counter + 1))] }] } :=
  rfl

theorem State.handle_other (s : State) (child : Child) {code : Int} (rest : List Int)
    (h : code ≠ NORMAL_OP) (h' : code ≠ FAULT_OP) : s.handle child code rest = { s with
      child := some child
      mailbox := rest
      handled := s.handled ++ [{ time := s.now, code := code, lines := [] }] } := by
  unfold State.handle CounterActor.onMessage
  rw [if_neg h, if_neg h']

theorem State.handle_fault (s : State) (child : Child) (rest : List Int) :
    s.handle child FAULT_OP rest = { s with
      child := (supervise child s.now .restart).1
      mailbox := rest
      handled := s.handled ++ [{
        time := s.now
        code := FAULT_OP
        lines := .fault :: (supervise child s.now .restart).2 }] } := rfl

theorem Inv.spaced {s : State} (h : Inv s) {child : Child} (hchild : s.child = some child) :
    Spaced (faults s.handled) := h.supervised.alive.mp (by rw [hchild]; exact Option.some_ne_none _)

theorem Inv.inOrder {s : State} (h : Inv s) {code : Int} {rest : List Int}
    (hm : s.mailbox = code :: rest) (lines : List Line) :
    s.arrived = List.map Entry.code
      (s.handled ++ [{ time := s.now, code := code, lines := lines }]) ++ rest := by
  rw [h.supervised.inOrder, hm]
  simp

theorem Inv.normal {s : State} (h : Inv s) {child : Child} (hchild : s.child = some child)
    {rest : List Int} (hm : s.mailbox = NORMAL_OP :: rest) :
    Inv (s.handle child NORMAL_OP rest) := by
  have hcounter : wrap 32 (child.counter + 1) = wrap 32 (sinceFault s.handled + 1) := by
    rw [h.counter child hchild, wrap_wrap_add]
  rw [State.handle_normal]
  refine ⟨⟨h.inOrder hm _, ?_, nofun, ?_⟩, ?_, ?_⟩
  · rw [faults_append_other _ _ _ fault_ne_normal.symm]
    exact iff_of_true nofun (h.spaced hchild)
  · refine each_append_singleton.mpr ⟨h.supervised.printed, ?_⟩
    rw [Printed, if_pos rfl, hcounter]
  · rintro _ ⟨⟩
    rw [sinceFault_append_other _ _ _ fault_ne_normal.symm, if_pos rfl, Nat.cast_succ]
    exact hcounter
  · rintro _ ⟨⟩
    rw [faults_append_other _ _ _ fault_ne_normal.symm]
    exact h.stats child hchild

theorem Inv.other {s : State} (h : Inv s) {child : Child} (hchild : s.child = some child)
    {code : Int} {rest : List Int} (hm : s.mailbox = code :: rest) (hnormal : code ≠ NORMAL_OP)
    (hfault : code ≠ FAULT_OP) : Inv (s.handle child code rest) := by
  rw [State.handle_other s child rest hnormal hfault]
  refine ⟨⟨h.inOrder hm _, ?_, nofun, ?_⟩, ?_, ?_⟩
  · rw [faults_append_other _ _ _ hfault]
    exact iff_of_true nofun (h.spaced hchild)
  · refine each_append_singleton.mpr ⟨h.supervised.printed, ?_⟩
    rw [Printed, if_neg hnormal, if_neg hfault]
  · rintro _ ⟨⟩
    rw [sinceFault_append_other _ _ _ hfault, if_neg hnormal, Nat.add_zero]
    exact h.counter child hchild
  · rintro _ ⟨⟩
    rw [faults_append_other _ _ _ hfault]
    exact h.stats child hchild

theorem Inv.fault {s : State} (h : Inv s) {child : Child} (hchild : s.child = some child)
    {rest : List Int} (hm : s.mailbox = FAULT_OP :: rest) :
    Inv (s.handle child FAULT_OP rest) := by
  have hspaced := h.spaced hchild
  have hstats := h.stats child hchild
  have hspaced' := spaced_append_singleton (faults s.handled) s.now
  rw [State.handle_fault]
  by_cases hlate : ∀ t ∈ (faults s.handled).getLast?, t + timeLength < s.now
  · have hall : Spaced (faults s.handled ++ [s.now]) := hspaced'.mpr ⟨hspaced, hlate⟩
    rw [supervise_of_late hstats hlate]
    refine ⟨⟨h.inOrder hm _, ?_, nofun, ?_⟩, ?_, ?_⟩
    · rw [faults_append_fault]
      exact iff_of_true nofun hall
    · refine each_append_singleton.mpr ⟨h.supervised.printed, ?_⟩
      rw [Printed, if_neg fault_ne_normal, if_pos rfl, faults_append_fault, if_pos hall]
    · rintro _ ⟨⟩
      rw [sinceFault_append_fault]
      rfl
    · rintro _ ⟨⟩
      rw [faults_append_fault, List.getLast?_concat]
  · have hnot : ¬ Spaced (faults s.handled ++ [s.now]) := fun hall => hlate (hspaced'.mp hall).2
    rw [supervise_of_early hstats hlate]
    refine ⟨⟨h.inOrder hm _, ?_, fun _ => ⟨_, _, rfl, rfl, hspaced⟩, ?_⟩, nofun, nofun⟩
    · rw [faults_append_fault]
      exact iff_of_false (fun hne => hne rfl) hnot
    · refine each_append_singleton.mpr ⟨h.supervised.printed, ?_⟩
      rw [Printed, if_neg fault_ne_normal, if_pos rfl, faults_append_fault, if_neg hnot]

theorem inv_of_reachable {s : State} (h : system.Reachable s) : Inv s := by
  refine h.invariant Inv ?_ ?_
  · rintro s rfl
    refine ⟨⟨rfl, ?_, nofun, .nil⟩, ?_, ?_⟩
    · simp [faults, Spaced]
    · rintro _ ⟨⟩
      rfl
    · rintro _ ⟨⟩
      rfl
  · intro s action t hs hstep
    cases hstep with
    | tick => exact ⟨⟨hs.supervised.inOrder, hs.supervised.alive, hs.supervised.stopped,
        hs.supervised.printed⟩, hs.counter, hs.stats⟩
    | tell code =>
      refine ⟨⟨?_, hs.supervised.alive, hs.supervised.stopped, hs.supervised.printed⟩,
        hs.counter, hs.stats⟩
      rw [hs.supervised.inOrder, List.append_assoc]
    | handle child code rest hchild hm =>
      rcases eq_or_ne code NORMAL_OP with rfl | hnormal
      · exact hs.normal hchild hm
      · rcases eq_or_ne code FAULT_OP with rfl | hfault
        · exact hs.fault hchild hm
        · exact hs.other hchild hm hnormal hfault

/-- In every run the counter is restarted after each fault, and counts on from zero, until a
fault comes within a minute of the last, which is the end of it. -/
theorem restarts {s : State} (h : system.Reachable s) : Supervised s :=
  (inv_of_reachable h).supervised

/-- The messages of `CounterSupervisor.java`. -/
theorem restarts_three : ∃ s : State, system.Reachable s ∧
    s.handled.flatMap Entry.lines =
      [.normal 1, .fault, .preparingToRestart, .nowRestarted, .normal 1] ∧ Supervised s := by
  have h0 : system.Reachable _ := .start rfl
  have h1 := ((h0.step (.tell NORMAL_OP)).step (.tell FAULT_OP)).step (.tell NORMAL_OP)
  have h2 := h1.step (.handle _ NORMAL_OP [FAULT_OP, NORMAL_OP] rfl rfl)
  have h3 := h2.step (.handle _ FAULT_OP [NORMAL_OP] rfl rfl)
  have h4 := h3.step (.handle _ NORMAL_OP [] rfl rfl)
  exact ⟨_, h4, rfl, restarts h4⟩

end Nsds.FaultTolerance
