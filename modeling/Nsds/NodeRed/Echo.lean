import Nsds.Lib.Transition

/-!
# `NodeRed/flows - lab1.json`, Es 6

A temperature is sent over UDP, comes back a second later, and is compared with the one that
was sent last. The JSON nodes give back what they are given, so the packets are payloads here.
-/

namespace Nsds.Echo

open Transition

structure Payload (T : Type) where
  str : String
  temp : T
deriving DecidableEq, Repr

/-- What `function 7` makes of a received message. -/
inductive Outcome (T : Type) where
  | accepted (payload : Payload T)
  | error
  | threw
deriving DecidableEq, Repr

/-- `msg` is `flow.get("msg")`. The packets are on their way to `Receive`, in `Wait 1 sec`, or
on their way to `Receive temperature`. -/
structure State (T : Type) where
  msg : Option (Payload T)
  outbound : List (Payload T)
  waiting : List (Payload T)
  inbound : List (Payload T)
  received : List (Payload T × Outcome T)

variable {T : Type}

def function6 (tempc : T) : Payload T where
  str := "The temperature in Milan is"
  temp := tempc

/-- Without a message in the context the function throws. -/
def function7 [DecidableEq T] (msg : Option (Payload T)) (payload : Payload T) : Outcome T :=
  match msg with
  | none => .threw
  | some msg =>
    if payload.str ≠ msg.str ∨ payload.temp ≠ msg.temp then .error else .accepted payload

inductive Action (T : Type) where
  | inject (tempc : T)
  | receive (payload : Payload T)
  | sendBack (payload : Payload T)
  | check (payload : Payload T)

/-- Any packet may overtake the others. -/
inductive Step [DecidableEq T] (s : State T) : Action T → State T → Prop where
  | inject (tempc : T) :
      Step s (.inject tempc) { s with
        msg := some (function6 tempc)
        outbound := s.outbound ++ [function6 tempc] }
  | receive (payload : Payload T) (pre post : List (Payload T))
      (hp : s.outbound = pre ++ payload :: post) :
      Step s (.receive payload) { s with
        outbound := pre ++ post
        waiting := s.waiting ++ [payload] }
  | sendBack (payload : Payload T) (pre post : List (Payload T))
      (hp : s.waiting = pre ++ payload :: post) :
      Step s (.sendBack payload) { s with
        waiting := pre ++ post
        inbound := s.inbound ++ [payload] }
  | check (payload : Payload T) (pre post : List (Payload T))
      (hp : s.inbound = pre ++ payload :: post) :
      Step s (.check payload) { s with
        inbound := pre ++ post
        received := s.received ++ [(payload, function7 s.msg payload)] }

def system (T : Type) [DecidableEq T] : System (State T) (Action T) where
  start s := s = { msg := none, outbound := [], waiting := [], inbound := [], received := [] }
  step := Step

/-! ## Settled injections -/

/-- The payloads on their way. -/
def State.inFlight (s : State T) : List (Payload T) := s.outbound ++ s.waiting ++ s.inbound

/-- A temperature is injected only while no packet with another one is in flight. -/
def Settled (s : State T) : Action T → Prop
  | .inject tempc => ∀ payload ∈ s.inFlight, payload.temp = tempc
  | _ => True

def AllAccepted (s : State T) : Prop :=
  ∀ entry ∈ s.received, entry.2 = .accepted entry.1

/-- All packets in flight are the one that was sent last. -/
structure Inv (s : State T) : Prop where
  inFlight : ∀ payload ∈ s.inFlight, s.msg = some payload ∧ payload = function6 payload.temp
  accepted : AllAccepted s

variable {s t : State T}

theorem mem_inFlight {payload : Payload T} :
    payload ∈ s.inFlight ↔ payload ∈ s.outbound ∨ payload ∈ s.waiting ∨ payload ∈ s.inbound := by
  simp [State.inFlight]

theorem Inv.frame (h : Inv s) (hmsg : t.msg = s.msg) (hsub : ∀ p ∈ t.inFlight, p ∈ s.inFlight)
    (haccepted : AllAccepted t) : Inv t := by
  refine ⟨fun payload hp => ?_, haccepted⟩
  rw [hmsg]
  exact h.inFlight payload (hsub payload hp)

variable [DecidableEq T]

theorem function7_self (payload : Payload T) :
    function7 (some payload) payload = .accepted payload := by
  simp [function7]

omit [DecidableEq T] in
theorem Inv.inject (h : Inv s) {tempc : T} (hok : ∀ payload ∈ s.inFlight, payload.temp = tempc) :
    Inv { s with
      msg := some (function6 tempc)
      outbound := s.outbound ++ [function6 tempc] } := by
  refine ⟨fun payload hp => ?_, h.accepted⟩
  have hcases : payload ∈ s.inFlight ∨ payload = function6 tempc := by
    rw [mem_inFlight, List.mem_append, List.mem_singleton] at hp
    rw [mem_inFlight]
    rcases hp with (hp | hp) | hp
    · exact .inl (.inl hp)
    · exact .inr hp
    · exact .inl (.inr hp)
  have hlast : payload = function6 tempc := by
    rcases hcases with hp | hp
    · rw [(h.inFlight payload hp).2, hok payload hp]
    · exact hp
  rw [hlast]
  exact ⟨rfl, rfl⟩

theorem Inv.step (h : Inv s) {action : Action T} (hok : Settled s action)
    (hstep : Step s action t) : Inv t := by
  cases hstep with
  | inject tempc => exact h.inject hok
  | receive payload pre post hp =>
    refine h.frame rfl (fun p hmem => ?_) h.accepted
    rw [mem_inFlight] at hmem ⊢
    rw [hp]
    grind
  | sendBack payload pre post hp =>
    refine h.frame rfl (fun p hmem => ?_) h.accepted
    rw [mem_inFlight] at hmem ⊢
    rw [hp]
    grind
  | check payload pre post hp =>
    refine h.frame rfl (fun p hmem => ?_) ?_
    · rw [mem_inFlight] at hmem ⊢
      rw [hp]
      grind
    · have hlast : s.msg = some payload := by
        apply And.left
        apply h.inFlight
        rw [mem_inFlight, hp]
        simp
      intro entry hentry
      rcases List.mem_append.mp hentry with hentry | hentry
      · exact h.accepted entry hentry
      · rw [List.mem_singleton.mp hentry, hlast, function7_self]

/-- As long as every temperature is injected while no other one is in flight, each echo is
accepted. -/
theorem echoes_accepted (h : ((system T).restrict Settled).Reachable s) : AllAccepted s := by
  have hinv := h.invariant Inv ?_ ?_
  · exact hinv.accepted
  · rintro s rfl
    exact ⟨by simp [State.inFlight], by simp [AllAccepted]⟩
  · rintro s action t hs ⟨hok, hstep⟩
    exact hs.step hok hstep

/-! ## Injections that are not settled -/

theorem run_inbound {payload : Payload T} (hp : payload ∈ s.inbound) :
    ∃ actions t, (system T).Run s actions t ∧ (payload, function7 s.msg payload) ∈ t.received := by
  obtain ⟨pre, post, hsplit⟩ := List.append_of_mem hp
  exact ⟨_, _, .cons (.check payload pre post hsplit) (.nil _), by simp⟩

theorem run_waiting {payload : Payload T} (hp : payload ∈ s.waiting) :
    ∃ actions t, (system T).Run s actions t ∧ (payload, function7 s.msg payload) ∈ t.received := by
  obtain ⟨pre, post, hsplit⟩ := List.append_of_mem hp
  let sentBack : State T := { s with
    waiting := pre ++ post
    inbound := s.inbound ++ [payload] }
  have hp' : payload ∈ sentBack.inbound := by simp [sentBack]
  obtain ⟨actions, t, hrun, hmem⟩ := run_inbound hp'
  exact ⟨_, t, .cons (.sendBack payload pre post hsplit) hrun, hmem⟩

theorem run_outbound {payload : Payload T} (hp : payload ∈ s.outbound) :
    ∃ actions t, (system T).Run s actions t ∧ (payload, function7 s.msg payload) ∈ t.received := by
  obtain ⟨pre, post, hsplit⟩ := List.append_of_mem hp
  let received : State T := { s with
    outbound := pre ++ post
    waiting := s.waiting ++ [payload] }
  have hp' : payload ∈ received.waiting := by simp [received]
  obtain ⟨actions, t, hrun, hmem⟩ := run_waiting hp'
  exact ⟨_, t, .cons (.receive payload pre post hsplit) hrun, hmem⟩

theorem run_inFlight {payload : Payload T} (hp : payload ∈ s.inFlight) :
    ∃ actions t, (system T).Run s actions t ∧ (payload, function7 s.msg payload) ∈ t.received := by
  rcases mem_inFlight.mp hp with hp | hp | hp
  · exact run_outbound hp
  · exact run_waiting hp
  · exact run_inbound hp

theorem unsettled_error {tempc : T} (h : ¬ Settled s (.inject tempc)) :
    ∃ actions t, (system T).Run s (.inject tempc :: actions) t ∧ ¬ AllAccepted t := by
  obtain ⟨payload, hp, htemp⟩ : ∃ payload ∈ s.inFlight, payload.temp ≠ tempc := by
    simpa [Settled] using h
  let injected : State T := { s with
    msg := some (function6 tempc)
    outbound := s.outbound ++ [function6 tempc] }
  have hp' : payload ∈ injected.inFlight := by
    rw [mem_inFlight] at hp ⊢
    exact hp.imp_left (List.mem_append_left _)
  obtain ⟨actions, t, hrun, hmem⟩ := run_inFlight hp'
  refine ⟨actions, t, .cons (.inject tempc) hrun, fun hall => ?_⟩
  have herror : function7 injected.msg payload = .error := if_pos (.inr htemp)
  have := hall _ hmem
  rw [herror] at this
  cases this

theorem echoes_accepted_two : ∃ s : State Int,
    ((system Int).restrict Settled).Reachable s ∧ s.received.length = 1 ∧ AllAccepted s := by
  have h0 : ((system Int).restrict Settled).Reachable ⟨none, [], [], [], []⟩ := .start rfl
  have h1 := h0.restrict_step (.inject 20) (by simp [Settled, State.inFlight])
  have h2 := h1.restrict_step (.inject 20) (by simp [Settled, State.inFlight, function6])
  have h3 := h2.restrict_step (.receive (function6 20) [] [function6 20] rfl) trivial
  have h4 := h3.restrict_step (.sendBack (function6 20) [] [] rfl) trivial
  have h5 := h4.restrict_step (.check (function6 20) [] [] rfl) trivial
  exact ⟨_, h5, rfl, echoes_accepted h5⟩

theorem late_echo_error : ∃ s : State Int, (system Int).Reachable s ∧
    s.received = [(function6 20, .error)] := by
  have h0 : (system Int).Reachable ⟨none, [], [], [], []⟩ := .start rfl
  have h1 := (h0.step (.inject 20)).step (.receive (function6 20) [] [] rfl)
  have h2 := (h1.step (.inject 21)).step (.sendBack (function6 20) [] [] rfl)
  have h3 := h2.step (.check (function6 20) [] [] rfl)
  exact ⟨_, h3, rfl⟩

end Nsds.Echo
