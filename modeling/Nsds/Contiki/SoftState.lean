import Nsds.Lib.Transition

/-!
# `Contiki-NG/examples/soft-hard-state`: soft state

`soft-state-client.c` refreshes the state of `soft-state-server.c` for as long as it is on, and
says nothing when it goes off: the server forgets. Each of them starts at any time.

Time counts the ticks of a clock. A timer that has expired is noticed `late` ticks later at most,
and a message that is not lost arrives within `delay` ticks, in any order.
-/

namespace Nsds.SoftState

open Transition

/-- `CLOCK_SECOND`, and what is known of the scheduler and of the network. -/
structure Timing where
  clockSecond : Nat
  late : Nat
  delay : Nat

/-- How long the client waits between two messages. -/
def Timing.refreshInterval (timing : Timing) : Nat := 5 * timing.clockSecond

/-- How long the client stays on, or off. -/
def Timing.switchInterval (timing : Timing) : Nat := 60 * timing.clockSecond

/-- How long the server remembers a message. -/
def Timing.expireInterval (timing : Timing) : Nat := 30 * timing.clockSecond

/-- The timers are the times at which they expire. A message in flight is the time at which it
was sent: the server does not look at anything else. -/
structure State where
  now : Nat
  clientUp : Bool
  serverUp : Bool
  onOff : Bool
  switchTimer : Nat
  periodicTimer : Nat
  inFlight : List Nat
  ledsRed : Bool
  stateExpireTimer : Option Nat
deriving DecidableEq, Repr

inductive Event where
  | tick
  /-- The processes start, with their timers. -/
  | startClient
  | startServer
  /-- `ctimer_callback` of the client. -/
  | switch
  /-- Its main loop, when it has found a route and when it has not. -/
  | refresh
  | notReachable
  | receive
  | lose
  /-- `ctimer_callback` of the server. -/
  | expire
deriving DecidableEq, Repr

/-- What is due is done before time goes on. -/
structure State.MayTick (timing : Timing) (s : State) : Prop where
  switch : s.clientUp = true → s.now < s.switchTimer + timing.late
  periodic : s.clientUp = true → s.now < s.periodicTimer + timing.late
  expire : ∀ timer, s.stateExpireTimer = some timer → s.now < timer + timing.late
  arrive : ∀ sent ∈ s.inFlight, s.now < sent + timing.delay

/-- A timer that is due, a message that arrives or is lost, or time that goes by. -/
inductive Step (timing : Timing) (s : State) : Event → State → Prop where
  | tick : s.MayTick timing → Step timing s .tick { s with now := s.now + 1 }
  | startClient : s.clientUp = false →
      Step timing s .startClient { s with
        clientUp := true
        switchTimer := s.now + timing.switchInterval
        periodicTimer := s.now + timing.refreshInterval }
  | startServer : s.serverUp = false →
      Step timing s .startServer { s with
        serverUp := true
        stateExpireTimer := some (s.now + timing.expireInterval) }
  | switch : s.clientUp = true → s.switchTimer ≤ s.now →
      Step timing s .switch { s with
        onOff := !s.onOff
        switchTimer := s.now + timing.switchInterval }
  | refresh : s.clientUp = true → s.periodicTimer ≤ s.now →
      Step timing s .refresh { s with
        inFlight := if s.onOff then s.now :: s.inFlight else s.inFlight
        periodicTimer := s.now + timing.refreshInterval }
  | notReachable : s.clientUp = true → s.periodicTimer ≤ s.now →
      Step timing s .notReachable { s with periodicTimer := s.now + timing.refreshInterval }
  | receive {sent : Nat} : s.serverUp = true → sent ∈ s.inFlight →
      Step timing s .receive { s with
        inFlight := s.inFlight.erase sent
        ledsRed := true
        stateExpireTimer := some (s.now + timing.expireInterval) }
  | lose {sent : Nat} : sent ∈ s.inFlight →
      Step timing s .lose { s with inFlight := s.inFlight.erase sent }
  | expire {timer : Nat} : s.stateExpireTimer = some timer → timer ≤ s.now →
      Step timing s .expire { s with ledsRed := false, stateExpireTimer := none }

/-- At first both are down, and the light is off. -/
def system (timing : Timing) : System State Event where
  start s := s = {
    now := 0
    clientUp := false
    serverUp := false
    onOff := false
    switchTimer := 0
    periodicTimer := 0
    inFlight := []
    ledsRed := false
    stateExpireTimer := none }
  step := Step timing

/-! ## What is due -/

variable {timing : Timing} {s t : State} {event : Event} {events : List Event}

structure Inv (timing : Timing) (s : State) : Prop where
  /-- Nothing is overdue. -/
  periodic : s.clientUp = true → s.now ≤ s.periodicTimer + timing.late
  expire : ∀ timer, s.stateExpireTimer = some timer → s.now ≤ timer + timing.late
  arrive : ∀ sent ∈ s.inFlight, s.now ≤ sent + timing.delay
  sent : ∀ sent ∈ s.inFlight, sent ≤ s.now
  /-- Nothing is set to later than now and its interval. -/
  refresh : s.clientUp = true → s.periodicTimer ≤ s.now + timing.refreshInterval
  forget : ∀ timer, s.stateExpireTimer = some timer → timer ≤ s.now + timing.expireInterval
  /-- The light does not stay on by itself. -/
  lit : s.ledsRed = true → s.stateExpireTimer.isSome = true
  up : s.onOff = true → s.clientUp = true
  down : s.serverUp = false → s.ledsRed = false

theorem Inv.start (h : (system timing).start s) : Inv timing s := by
  cases h
  exact ⟨nofun, nofun, nofun, nofun, nofun, nofun, nofun, nofun, fun _ => rfl⟩

theorem Inv.step (h : Inv timing s) (hstep : Step timing s event t) : Inv timing t := by
  cases hstep with
  | tick hmay =>
    refine ⟨hmay.periodic, hmay.expire, hmay.arrive, fun sent hsent => ?_, fun hup => ?_,
      fun timer htimer => ?_, h.lit, h.up, h.down⟩
    · exact Nat.le_succ_of_le (h.sent sent hsent)
    · have hrefresh := h.refresh hup
      simp only; omega
    · have hforget := h.forget timer htimer
      simp only; omega
  | startClient =>
    exact ⟨fun _ => by simp; omega, h.expire, h.arrive, h.sent, fun _ => Nat.le_refl _, h.forget,
      h.lit, fun _ => rfl, h.down⟩
  | startServer =>
    refine ⟨h.periodic, ?_, h.arrive, h.sent, h.refresh, ?_, fun _ => rfl, h.up, nofun⟩
    · rintro timer ⟨⟩
      simp; omega
    · rintro timer ⟨⟩
      exact Nat.le_refl _
  | switch hup =>
    exact ⟨h.periodic, h.expire, h.arrive, h.sent, h.refresh, h.forget, h.lit, fun _ => hup,
      h.down⟩
  | refresh hup =>
    have hsent : ∀ sent ∈ if s.onOff then s.now :: s.inFlight else s.inFlight,
        sent = s.now ∨ sent ∈ s.inFlight := by
      split
      · simp
      · exact fun _ => .inr
    refine ⟨fun _ => by simp; omega, h.expire, fun sent hmem => ?_, fun sent hmem => ?_,
      fun _ => Nat.le_refl _, h.forget, h.lit, h.up, h.down⟩
    · rcases hsent sent hmem with rfl | hmem
      · exact Nat.le_add_right _ _
      · exact h.arrive sent hmem
    · rcases hsent sent hmem with rfl | hmem
      · exact Nat.le_refl _
      · exact h.sent sent hmem
  | notReachable hup =>
    exact ⟨fun _ => by simp; omega, h.expire, h.arrive, h.sent, fun _ => Nat.le_refl _, h.forget,
      h.lit, h.up, h.down⟩
  | receive hserver =>
    refine ⟨h.periodic, ?_, fun sent hsent => h.arrive sent (List.mem_of_mem_erase hsent),
      fun sent hsent => h.sent sent (List.mem_of_mem_erase hsent), h.refresh, ?_, fun _ => rfl,
      h.up, fun hdown => by simp_all⟩
    · rintro timer ⟨⟩
      simp; omega
    · rintro timer ⟨⟩
      exact Nat.le_refl _
  | lose =>
    exact ⟨h.periodic, h.expire, fun sent hsent => h.arrive sent (List.mem_of_mem_erase hsent),
      fun sent hsent => h.sent sent (List.mem_of_mem_erase hsent), h.refresh, h.forget, h.lit, h.up,
      h.down⟩
  | expire =>
    exact ⟨h.periodic, nofun, h.arrive, h.sent, h.refresh, nofun, nofun, h.up, fun _ => rfl⟩

theorem Inv.reachable (h : (system timing).Reachable s) : Inv timing s :=
  h.invariant (Inv timing) (fun _ => Inv.start) fun _ _ _ => Inv.step

/-! ## A run -/

theorem run_ticks (n : Nat)
    (hswitch : s.clientUp = true → s.now + n ≤ s.switchTimer + timing.late)
    (hperiodic : s.clientUp = true → s.now + n ≤ s.periodicTimer + timing.late)
    (hexpire : ∀ timer, s.stateExpireTimer = some timer → s.now + n ≤ timer + timing.late)
    (harrive : ∀ sent ∈ s.inFlight, s.now + n ≤ sent + timing.delay) :
    (system timing).Run s (List.replicate n .tick) { s with now := s.now + n } := by
  induction n generalizing s with
  | zero => exact .nil s
  | succ n ih =>
    have hrun := @ih { s with now := s.now + 1 }
      (fun hup => by have hle := hswitch hup; simp; omega)
      (fun hup => by have hle := hperiodic hup; simp; omega)
      (fun timer htimer => by have hle := hexpire timer htimer; simp; omega)
      (fun sent hsent => by have hle := harrive sent hsent; simp; omega)
    rw [List.replicate_succ, Nat.add_comm n 1, ← Nat.add_assoc]
    refine .cons (.tick
      ⟨fun hup => ?_, fun hup => ?_, fun timer htimer => ?_, fun sent hsent => ?_⟩)
      hrun
    · have hle := hswitch hup
      omega
    · have hle := hperiodic hup
      omega
    · have hle := hexpire timer htimer
      omega
    · have hle := harrive sent hsent
      omega

def slow : Timing := ⟨1, 20, 2⟩

/-- The client is switched on for the first time. -/
def switchedOn : State := ⟨70, true, true, true, 130, 55, [], false, none⟩

def lit : State := ⟨98, true, true, true, 130, 102, [], true, some 128⟩

def switchedOff : State := ⟨130, true, true, false, 190, 125, [], true, some 151⟩

theorem reachable_switchedOn : (system slow).Reachable switchedOn := by
  have hstart : (system slow).Reachable ⟨0, false, false, false, 0, 0, [], false, none⟩ :=
    .start rfl
  exact hstart.run <|
    (run_ticks 7 (by decide) (by decide) (by decide) (by decide)).append <|
    .cons (.startServer rfl) <|
    (run_ticks 3 (by decide) (by decide) (by decide) (by decide)).append <|
    .cons (.startClient rfl) <|
    (run_ticks 20 (by decide) (by decide) (by decide) (by decide)).append <|
    .cons (.refresh rfl (by decide)) <|
    (run_ticks 10 (by decide) (by decide) (by decide) (by decide)).append <|
    .cons (.expire rfl (by decide)) <|
    (run_ticks 10 (by decide) (by decide) (by decide) (by decide)).append <|
    .cons (.refresh rfl (by decide)) <|
    (run_ticks 20 (by decide) (by decide) (by decide) (by decide)).append <|
    .cons (.switch rfl (by decide)) <| .nil _

/-- Two refreshes and their messages. -/
def litEvents : List Event :=
  List.replicate 2 .tick ++ .refresh :: (List.replicate 1 .tick ++ .receive ::
    (List.replicate 24 .tick ++ .refresh :: (List.replicate 1 .tick ++ [.receive])))

theorem run_lit : (system slow).Run switchedOn litEvents lit :=
  (run_ticks 2 (by decide) (by decide) (by decide) (by decide)).append <|
  .cons (.refresh rfl (by decide)) <|
  (run_ticks 1 (by decide) (by decide) (by decide) (by decide)).append <|
  .cons (.receive rfl (List.mem_singleton_self 72)) <|
  (run_ticks 24 (by decide) (by decide) (by decide) (by decide)).append <|
  .cons (.refresh rfl (by decide)) <|
  (run_ticks 1 (by decide) (by decide) (by decide) (by decide)).append <|
  .cons (.receive rfl (List.mem_singleton_self 97)) <| .nil _

theorem reachable_switchedOff : (system slow).Reachable switchedOff :=
  (reachable_switchedOn.run run_lit).run <|
    (run_ticks 22 (by decide) (by decide) (by decide) (by decide)).append <|
    .cons (.refresh rfl (by decide)) <|
    (run_ticks 1 (by decide) (by decide) (by decide) (by decide)).append <|
    .cons (.receive rfl (List.mem_singleton_self 120)) <|
    (run_ticks 9 (by decide) (by decide) (by decide) (by decide)).append <|
    .cons (.switch rfl (by decide)) <| .nil _

/-! ## Off -/

/-- The client has been off since then. -/
structure Silent (timing : Timing) (since : Nat) (s : State) : Prop where
  off : s.onOff = false
  sent : ∀ sent ∈ s.inFlight, sent ≤ since
  expire : s.ledsRed = true → ∀ timer, s.stateExpireTimer = some timer →
    timer ≤ since + timing.delay + timing.expireInterval

theorem Silent.step {since : Nat} (h : Silent timing since s) (hinv : Inv timing s)
    (hswitch : event ≠ .switch) (hstep : Step timing s event t) : Silent timing since t := by
  cases hstep with
  | tick | startClient | notReachable => exact ⟨h.off, h.sent, h.expire⟩
  | startServer hdown =>
    refine ⟨h.off, h.sent, fun hlit => ?_⟩
    exact absurd (hinv.down hdown) (by simpa using hlit)
  | switch => exact absurd rfl hswitch
  | refresh =>
    refine ⟨h.off, fun sent hsent => ?_, h.expire⟩
    simp only [h.off, Bool.false_eq_true, if_false] at hsent
    exact h.sent sent hsent
  | @receive sent _ hsent =>
    refine ⟨h.off, fun sent' hsent' => h.sent sent' (List.mem_of_mem_erase hsent'), ?_⟩
    rintro - timer ⟨⟩
    have hlow := h.sent sent hsent
    have hhigh := hinv.arrive sent hsent
    omega
  | lose => exact ⟨h.off, fun sent hsent => h.sent sent (List.mem_of_mem_erase hsent), h.expire⟩
  | expire => exact ⟨h.off, h.sent, nofun⟩

/-- When the client has been off for the last message to arrive and for the server to forget,
the light is off, whatever was lost. -/
theorem soft_off (h : (system timing).Reachable s) (hoff : s.onOff = false)
    (hrun : (system timing).Run s events t) (hevents : ∀ event ∈ events, event ≠ .switch)
    (htime : s.now + timing.delay + timing.expireInterval + timing.late < t.now) :
    t.ledsRed = false := by
  have hinv := Inv.reachable h
  have hsilent : Silent timing s.now s := by
    refine ⟨hoff, hinv.sent, fun _ timer htimer => ?_⟩
    have hforget := hinv.forget timer htimer
    omega
  have hend := hrun.invariant_of_labels (Silent timing s.now)
    (fun _ _ _ hs hsilent => hsilent.step (Inv.reachable hs)) h hsilent hevents
  have hinv := Inv.reachable (h.run hrun)
  cases hlit : t.ledsRed with
  | false => rfl
  | true =>
    obtain ⟨timer, htimer⟩ := Option.isSome_iff_exists.mp (hinv.lit hlit)
    have hlow := hinv.expire timer htimer
    have hhigh := hend.expire hlit timer htimer
    omega

theorem soft_off_first : ∃ events t, switchedOff.ledsRed = true ∧
    (system slow).Run switchedOff events t ∧ 182 < t.now ∧ t.ledsRed = false := by
  have hrun : (system slow).Run switchedOff _ _ :=
    (run_ticks 15 (by decide) (by decide) (by decide) (by decide)).append <|
    .cons (.refresh rfl (by decide)) <|
    (run_ticks 25 (by decide) (by decide) (by decide) (by decide)).append <|
    .cons (.refresh rfl (by decide)) <| .cons (.expire rfl (by decide)) <|
    run_ticks 13 (by decide) (by decide) (by decide) (by decide)
  exact ⟨_, _, rfl, hrun, by decide,
    soft_off reachable_switchedOff rfl hrun (by decide) (by decide)⟩

/-! ## On -/

/-- A message was sent soon after `a` and is in flight, or is going to be sent. -/
def Fresh (timing : Timing) (a : Nat) (s : State) : Prop :=
  s.periodicTimer ≤ a + timing.refreshInterval ∨
    ∃ sent ∈ s.inFlight, sent ≤ a + timing.refreshInterval + timing.late

theorem Fresh.now_le {a : Nat} (h : Fresh timing a s) (hinv : Inv timing s)
    (hon : s.onOff = true) :
    s.now ≤ a + timing.refreshInterval + timing.late + timing.delay := by
  rcases h with hperiodic | ⟨sent, hmem, hsent⟩
  · have hle := hinv.periodic (hinv.up hon)
    omega
  · have hle := hinv.arrive sent hmem
    omega

/-- The server is up, and the client has been on since then. Once a message has arrived, at `a`, the
light is on. -/
def Refreshed (timing : Timing) (since : Nat) (s : State) : Prop :=
  s.onOff = true ∧ s.serverUp = true ∧ (Fresh timing since s ∨
    ∃ a timer, Fresh timing a s ∧ s.ledsRed = true ∧ s.stateExpireTimer = some timer ∧
      a + timing.expireInterval ≤ timer)

theorem Fresh.refresh {a : Nat} (h : Fresh timing a s) (hinv : Inv timing s)
    (hon : s.onOff = true) :
    Fresh timing a { s with
      inFlight := if s.onOff then s.now :: s.inFlight else s.inFlight
      periodicTimer := s.now + timing.refreshInterval } := by
  right
  simp only [hon, if_true]
  rcases h with hperiodic | ⟨sent, hmem, hsent⟩
  · have hle := hinv.periodic (hinv.up hon)
    exact ⟨s.now, by simp, by omega⟩
  · exact ⟨sent, by simp [hmem], hsent⟩

theorem Refreshed.step {since : Nat}
    (htiming : timing.refreshInterval + timing.late + timing.delay < timing.expireInterval)
    (h : Refreshed timing since s) (hinv : Inv timing s)
    (hevent : event ∉ [.switch, .lose, .notReachable]) (hstep : Step timing s event t) :
    Refreshed timing since t := by
  obtain ⟨hon, hserver, h⟩ := h
  cases hstep with
  | tick => exact ⟨hon, hserver, h⟩
  | startClient hdown =>
    rw [hinv.up hon] at hdown
    cases hdown
  | startServer hdown =>
    rw [hserver] at hdown
    cases hdown
  | switch | lose | notReachable => simp at hevent
  | refresh =>
    refine ⟨hon, hserver, ?_⟩
    rcases h with h | ⟨a, timer, h, hlit⟩
    · exact .inl (h.refresh hinv hon)
    · exact .inr ⟨a, timer, h.refresh hinv hon, hlit⟩
  | receive =>
    exact ⟨hon, hserver, .inr ⟨s.now, _, .inl (hinv.refresh (hinv.up hon)), rfl, rfl,
      Nat.le_refl _⟩⟩
  | expire hsome hle =>
    refine ⟨hon, hserver, ?_⟩
    rcases h with h | ⟨a, timer, h, hlit, htimer, hlow⟩
    · exact .inl h
    · -- the next message comes before the server forgets
      have hnow := h.now_le hinv hon
      rw [htimer] at hsome
      cases hsome
      omega

/-- When the client has been on for a refresh since both are up, the light is on and stays on, if
every message arrives and a refresh takes less time than the server needs to forget. -/
theorem soft_on (htiming : timing.refreshInterval + timing.late + timing.delay <
      timing.expireInterval)
    (h : (system timing).Reachable s) (hon : s.onOff = true) (hserver : s.serverUp = true)
    (hrun : (system timing).Run s events t)
    (hevents : ∀ event ∈ events, event ∉ [.switch, .lose, .notReachable])
    (htime : s.now + timing.refreshInterval + timing.late + timing.delay < t.now) :
    t.ledsRed = true := by
  have hinv := Inv.reachable h
  have hstart : Refreshed timing s.now s := ⟨hon, hserver, .inl (.inl (hinv.refresh (hinv.up hon)))⟩
  obtain ⟨hstill, -, hfresh | ⟨_, _, -, hlit, -⟩⟩ :=
    hrun.invariant_of_labels (Refreshed timing s.now)
    (fun _ _ _ hs hrefreshed => hrefreshed.step htiming (Inv.reachable hs)) h hstart hevents
  · have hle := hfresh.now_le (Inv.reachable (h.run hrun)) hstill
    omega
  · exact hlit

theorem soft_on_first : ∃ events t, (system slow).Run switchedOn events t ∧ 97 < t.now ∧
    t.ledsRed = true :=
  ⟨_, _, run_lit, by decide,
    soft_on (by decide) reachable_switchedOn rfl rfl run_lit (by decide) (by decide)⟩

end Nsds.SoftState
