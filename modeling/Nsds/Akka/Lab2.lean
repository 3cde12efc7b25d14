import Mathlib.Data.List.Perm.Basic
import Nsds.Lib.MachineInt
import Nsds.Lib.Transition

/-!
# `Akka/NSDS_akka_tutorial_and_lab`, package `com.lab2`

A counter (`CounterActor.java`) that puts a decrement aside while it is at zero. Every
increment takes the oldest one back to the front of the mailbox.
-/

namespace Nsds.Lab2

open MachineInt Transition

inductive Kind where
  | decrementMessage
  | incrementMessage
deriving DecidableEq, Repr

/-- A message, with what tells it from the others of its class. -/
structure Message (I : Type) where
  kind : Kind
  id : I
deriving DecidableEq, Repr

/-! ## `CounterActor` -/

namespace CounterActor

/-- What a handler asks of the stash. -/
inductive Effect where
  | none
  | stash
  | unstash
deriving DecidableEq, Repr

def new : Int := 0

/-- A decrement at zero waits for an increment. -/
def onDecrementMessage (counter : Int) : Int × Effect :=
  if counter = 0 then (counter, .stash) else (wrap 32 (counter - 1), .none)

def onIncrementMessage (counter : Int) : Int × Effect :=
  (wrap 32 (counter + 1), .unstash)

/-- The two classes are matched with the handlers that are named after the other one. -/
def receive (counter : Int) : Kind → Int × Effect
  | .decrementMessage => onIncrementMessage counter
  | .incrementMessage => onDecrementMessage counter

end CounterActor

/-- The actor, with all messages that have arrived and those that were not put aside. -/
structure State (I : Type) where
  counter : Int
  mailbox : List (Message I)
  stash : List (Message I)
  arrived : List (Message I)
  applied : List (Message I)

variable {I : Type}

/-- A message comes into the mailbox. -/
def State.arrive (s : State I) (msg : Message I) : State I :=
  { s with mailbox := s.mailbox ++ [msg], arrived := s.arrived ++ [msg] }

/-- The actor handles `msg`, with `rest` behind it in the mailbox. -/
def State.handle (s : State I) (msg : Message I) (rest : List (Message I)) : State I :=
  match CounterActor.receive s.counter msg.kind with
  | (counter, .none) =>
    { s with counter := counter, mailbox := rest, applied := s.applied ++ [msg] }
  | (counter, .stash) =>
    { s with counter := counter, mailbox := rest, stash := s.stash ++ [msg] }
  | (counter, .unstash) =>
    { s with
      counter := counter
      mailbox := s.stash.take 1 ++ rest
      stash := s.stash.drop 1
      applied := s.applied ++ [msg] }

inductive Action (I : Type) where
  | arrive (msg : Message I)
  | handle (msg : Message I)

inductive Step (s : State I) : Action I → State I → Prop where
  | arrive (msg : Message I) : Step s (.arrive msg) (s.arrive msg)
  | handle (msg : Message I) (rest : List (Message I)) (hm : s.mailbox = msg :: rest) :
      Step s (.handle msg) (s.handle msg rest)

/-- Nothing has arrived. -/
def system (I : Type) : System (State I) (Action I) where
  start s := s = {
    counter := CounterActor.new
    mailbox := []
    stash := []
    arrived := []
    applied := [] }
  step := Step

/-! ## Increments and decrements -/

/-- The messages that are routed to `onIncrementMessage`. -/
def increments (msgs : List (Message I)) : Nat :=
  msgs.countP fun msg => msg.kind = .decrementMessage

/-- The messages that are routed to `onDecrementMessage`. -/
def decrements (msgs : List (Message I)) : Nat :=
  msgs.countP fun msg => msg.kind = .incrementMessage

/-- What the counter stands for, where the messages are, and why nothing stays put aside while
the counter is positive: the one that an increment takes back is the next to be handled. -/
structure State.Inv (s : State I) : Prop where
  counter : s.counter + decrements s.applied = increments s.applied
  nonneg : 0 ≤ s.counter
  perm : s.arrived.Perm (s.applied ++ (s.stash ++ s.mailbox))
  stashed : ∀ msg ∈ s.stash, msg.kind = .incrementMessage
  waiting : s.stash ≠ [] → s.counter = 0 ∨
    s.counter = 1 ∧ ∃ msg rest, s.mailbox = msg :: rest ∧ msg.kind = .incrementMessage

theorem State.Inv.arrive {s : State I} (h : s.Inv) (msg : Message I) : (s.arrive msg).Inv := by
  obtain ⟨hcounter, hnonneg, hperm, hstashed, hwaiting⟩ := h
  refine ⟨hcounter, hnonneg, ?_, hstashed, ?_⟩
  · have := hperm.append_right [msg]
    rwa [List.append_assoc, List.append_assoc] at this
  · intro hne
    rcases hwaiting hne with h0 | ⟨h1, head, rest, hmail, hkind⟩
    · exact .inl h0
    · exact .inr ⟨h1, head, rest ++ [msg], by rw [State.arrive, hmail]; rfl, hkind⟩

theorem increments_append (msgs msgs' : List (Message I)) :
    increments (msgs ++ msgs') = increments msgs + increments msgs' := List.countP_append

theorem decrements_append (msgs msgs' : List (Message I)) :
    decrements (msgs ++ msgs') = decrements msgs + decrements msgs' := List.countP_append

theorem perm_applied {arrived applied stash mailbox rest : List (Message I)} {msg : Message I}
    (hperm : arrived.Perm (applied ++ (stash ++ mailbox))) (hm : mailbox = msg :: rest) :
    arrived.Perm (applied ++ [msg] ++ (stash ++ rest)) := by
  rw [List.append_assoc, List.singleton_append]
  rw [hm] at hperm
  exact hperm.trans (List.perm_middle.append_left applied)

theorem State.Inv.counter_lt {s : State I} (h : s.Inv) (hfew : increments s.arrived < 2 ^ 31) :
    s.counter < 2 ^ 31 := by
  have hcount : increments s.arrived = increments (s.applied ++ (s.stash ++ s.mailbox)) :=
    h.perm.countP_eq _
  have := h.counter
  rw [increments_append] at hcount
  omega

/-! ## What a turn does -/

theorem State.handle_increment {s : State I} {msg : Message I} {rest : List (Message I)}
    (hkind : msg.kind = .decrementMessage) (hnonneg : 0 ≤ s.counter)
    (hfits : s.counter + 1 < 2 ^ 31) :
    s.handle msg rest = { s with
      counter := s.counter + 1
      mailbox := s.stash.take 1 ++ rest
      stash := s.stash.drop 1
      applied := s.applied ++ [msg] } := by
  rw [State.handle, hkind]
  simp only [CounterActor.receive, CounterActor.onIncrementMessage]
  rw [wrap_of_int (by omega) (by omega)]

theorem State.handle_stash {s : State I} {msg : Message I} {rest : List (Message I)}
    (hkind : msg.kind = .incrementMessage) (hzero : s.counter = 0) :
    s.handle msg rest = { s with mailbox := rest, stash := s.stash ++ [msg] } := by
  rw [State.handle, hkind]
  simp only [CounterActor.receive, CounterActor.onDecrementMessage, if_pos hzero]

theorem State.handle_decrement {s : State I} {msg : Message I} {rest : List (Message I)}
    (hkind : msg.kind = .incrementMessage) (hpos : 0 < s.counter) (hfits : s.counter < 2 ^ 31) :
    s.handle msg rest = { s with
      counter := s.counter - 1
      mailbox := rest
      applied := s.applied ++ [msg] } := by
  have hzero : s.counter ≠ 0 := by omega
  rw [State.handle, hkind]
  simp only [CounterActor.receive, CounterActor.onDecrementMessage, if_neg hzero]
  rw [wrap_of_int (by omega) (by omega)]

/-- An increment is only handled with nothing put aside, or at zero: a message that was put aside
would be the next one. -/
theorem State.Inv.counter_eq_zero {s : State I} (h : s.Inv) {msg : Message I}
    {rest : List (Message I)} (hm : s.mailbox = msg :: rest) (hkind : msg.kind = .decrementMessage)
    (hne : s.stash ≠ []) : s.counter = 0 := by
  rcases h.waiting hne with h0 | ⟨-, head, rest', hmail, hhead⟩
  · exact h0
  · rw [hm] at hmail
    cases hmail
    rw [hkind] at hhead
    cases hhead

theorem State.Inv.counter_succ_lt {s : State I} (h : s.Inv) (hfew : increments s.arrived < 2 ^ 31)
    {msg : Message I} {rest : List (Message I)} (hm : s.mailbox = msg :: rest)
    (hone : increments [msg] = 1) : s.counter + 1 < 2 ^ 31 := by
  have hcount : increments s.arrived = increments (s.applied ++ (s.stash ++ s.mailbox)) :=
    h.perm.countP_eq _
  rw [hm, ← List.singleton_append, increments_append, increments_append, increments_append,
    hone] at hcount
  have := h.counter
  omega

theorem State.Inv.increment {s : State I} (h : s.Inv) (hfew : increments s.arrived < 2 ^ 31)
    {msg : Message I} {rest : List (Message I)} (hm : s.mailbox = msg :: rest)
    (hkind : msg.kind = .decrementMessage) : (s.handle msg rest).Inv := by
  have hone : increments [msg] = 1 := by simp [increments, hkind]
  have hnone : decrements [msg] = 0 := by simp [decrements, hkind]
  have hzero := h.counter_eq_zero hm hkind
  rw [State.handle_increment hkind h.nonneg (h.counter_succ_lt hfew hm hone)]
  obtain ⟨hcounter, hnonneg, hperm, hstashed, -⟩ := h
  refine ⟨?_, Int.add_nonneg hnonneg (by decide), ?_, ?_, ?_⟩
  · simp only [increments_append, decrements_append, hone, hnone]
    omega
  · have hmoved : (s.stash ++ rest).Perm (s.stash.drop 1 ++ (s.stash.take 1 ++ rest)) := by
      rw [← List.append_assoc]
      conv_lhs => rw [← List.take_append_drop 1 s.stash]
      exact List.perm_append_comm.append_right rest
    exact (perm_applied hperm hm).trans (hmoved.append_left _)
  · exact fun m hmem => hstashed m (List.mem_of_mem_drop hmem)
  · intro hne
    obtain ⟨first, others, hstash⟩ := List.exists_cons_of_ne_nil
      (fun hnil : s.stash = [] => hne (by rw [hnil]; rfl))
    refine .inr ⟨by rw [hzero (by simp [hstash]), Int.zero_add], first, rest, ?_, ?_⟩
    · rw [hstash]
      rfl
    · exact hstashed first (by simp [hstash])

theorem State.Inv.decrement {s : State I} (h : s.Inv) (hfew : increments s.arrived < 2 ^ 31)
    {msg : Message I} {rest : List (Message I)} (hm : s.mailbox = msg :: rest)
    (hkind : msg.kind = .incrementMessage) : (s.handle msg rest).Inv := by
  have hfits := h.counter_lt hfew
  obtain ⟨hcounter, hnonneg, hperm, hstashed, hwaiting⟩ := h
  rcases Int.lt_or_eq_of_le hnonneg with hpos | hzero
  · rw [State.handle_decrement hkind hpos hfits]
    refine ⟨?_, ?_, perm_applied hperm hm, hstashed, ?_⟩
    · have hone : decrements [msg] = 1 := by simp [decrements, hkind]
      have hnone : increments [msg] = 0 := by simp [increments, hkind]
      simp only [increments_append, decrements_append, hone, hnone]
      omega
    · change 0 ≤ s.counter - 1
      omega
    · intro hne
      rcases hwaiting hne with h0 | ⟨h1, -⟩
      · omega
      · exact .inl (by rw [h1]; rfl)
  · rw [State.handle_stash hkind hzero.symm]
    refine ⟨hcounter, hnonneg, ?_, ?_, fun _ => .inl hzero.symm⟩
    · rwa [List.append_assoc, List.singleton_append, ← hm]
    · intro m hmem
      rcases List.mem_append.mp hmem with hmem | hmem
      · exact hstashed m hmem
      · rwa [List.mem_singleton.mp hmem]

theorem State.handle_arrived (s : State I) (msg : Message I) (rest : List (Message I)) :
    (s.handle msg rest).arrived = s.arrived := by
  unfold State.handle
  split <;> rfl

theorem Step.inv {s t : State I} {action : Action I} (hstep : Step s action t)
    (hs : increments s.arrived < 2 ^ 31 → s.Inv) (hfew : increments t.arrived < 2 ^ 31) :
    t.Inv := by
  cases hstep with
  | arrive msg =>
    have hle : increments s.arrived ≤ increments (s.arrive msg).arrived := by
      rw [State.arrive, increments_append]
      omega
    exact (hs (by omega)).arrive msg
  | handle msg rest hm =>
    rw [State.handle_arrived] at hfew
    cases hkind : msg.kind with
    | decrementMessage => exact (hs hfew).increment hfew hm hkind
    | incrementMessage => exact (hs hfew).decrement hfew hm hkind

theorem inv_of_reachable {s : State I} (h : (system I).Reachable s)
    (hfew : increments s.arrived < 2 ^ 31) : s.Inv := by
  refine h.invariant (fun s => increments s.arrived < 2 ^ 31 → s.Inv) ?_ ?_ hfew
  · rintro s rfl -
    exact ⟨rfl, Int.le_refl _, .nil, by simp, fun hne => absurd rfl hne⟩
  · intro s action t hs hstep
    exact hstep.inv hs

/-- Whatever the order is in which fewer than `2 ^ 31` increments and any number of decrements
come, the counter is what was incremented and not decremented, and at the end only the decrements
that are too many are put aside. -/
theorem counter_order_independent {s : State I} (h : (system I).Reachable s)
    (hfew : increments s.arrived < 2 ^ 31) :
    0 ≤ s.counter ∧ s.counter + decrements s.applied = increments s.applied ∧
      s.arrived.Perm (s.applied ++ (s.stash ++ s.mailbox)) ∧
      (s.mailbox = [] →
        s.counter = max 0 ((increments s.arrived : Int) - decrements s.arrived) ∧
        (s.stash.length : Int) = max 0 ((decrements s.arrived : Int) - increments s.arrived)) := by
  obtain ⟨hcounter, hnonneg, hperm, hstashed, hwaiting⟩ := inv_of_reachable h hfew
  refine ⟨hnonneg, hcounter, hperm, fun hempty => ?_⟩
  have hzero : s.stash ≠ [] → s.counter = 0 := by
    intro hne
    rcases hwaiting hne with h0 | ⟨-, head, rest, hmail, -⟩
    · exact h0
    · rw [hempty] at hmail
      cases hmail
  have hinc : increments s.arrived = increments s.applied + increments s.stash := by
    rw [← increments_append, ← List.append_nil s.stash, ← hempty]
    exact hperm.countP_eq _
  have hdec : decrements s.arrived = decrements s.applied + decrements s.stash := by
    rw [← decrements_append, ← List.append_nil s.stash, ← hempty]
    exact hperm.countP_eq _
  have hall : decrements s.stash = s.stash.length :=
    List.countP_eq_length.mpr fun msg hmem => by simp [hstashed msg hmem]
  have hnone : increments s.stash = 0 :=
    List.countP_eq_zero.mpr fun msg hmem => by simp [hstashed msg hmem]
  rcases eq_or_ne s.stash [] with hnil | hne
  · have : s.stash.length = 0 := by rw [hnil]; rfl
    omega
  · have := hzero hne
    omega

theorem counter_order_independent_three : ∃ s : State Nat, (system Nat).Reachable s ∧
    s.mailbox = [] ∧ decrements s.arrived = 2 ∧ increments s.arrived = 1 ∧
    s.counter = max 0 (1 - 2) ∧ (s.stash.length : Int) = max 0 (2 - 1) := by
  let dec (id : Nat) : Message Nat := ⟨.incrementMessage, id⟩
  let inc (id : Nat) : Message Nat := ⟨.decrementMessage, id⟩
  have h0 : (system Nat).Reachable ⟨0, [], [], [], []⟩ := .start rfl
  have h1 := (h0.step (.arrive (dec 0))).step (.handle (dec 0) [] rfl)
  have h2 := (h1.step (.arrive (inc 1))).step (.arrive (dec 2))
  have h3 := (h2.step (.handle (inc 1) [dec 2] rfl)).step (.handle (dec 0) [dec 2] rfl)
  have h4 := h3.step (.handle (dec 2) [] rfl)
  exact ⟨_, h4, rfl, rfl, rfl, (counter_order_independent h4 (by decide)).2.2.2 rfl⟩

theorem increments_reachable (msg : Message I) (hkind : msg.kind = .decrementMessage) (n : Nat) :
    (system I).Reachable
      ⟨wrap 32 n, [], [], List.replicate n msg, List.replicate n msg⟩ := by
  induction n with
  | zero => exact .start rfl
  | succ n ih =>
    have h := (ih.step (.arrive msg)).step (.handle msg [] rfl)
    rw [State.handle, hkind] at h
    simpa [CounterActor.receive, CounterActor.onIncrementMessage, State.arrive, wrap_wrap_add,
      List.replicate_succ'] using h

theorem counter_overflows : ∃ s : State Unit, (system Unit).Reachable s ∧
    increments s.arrived = 2 ^ 31 ∧ decrements s.arrived = 0 ∧ s.counter < 0 := by
  refine ⟨_, increments_reachable ⟨.decrementMessage, ()⟩ rfl (2 ^ 31), ?_, ?_, by decide⟩
  · exact (List.countP_replicate ..).trans (if_pos rfl)
  · exact (List.countP_replicate ..).trans (if_neg (by decide))

end Nsds.Lab2
