import Nsds.Contiki.Es4.Client
import Nsds.Contiki.Es4.Payload
import Nsds.Lib.History

/-!
# The client and the broker

What the client asks of the engine is in order whatever the engine does, and the client
never stops asking.
-/

namespace Nsds.Es4.Client

open CString History Transition

/-! ## What is in order -/

/-- The client connects and disconnects. -/
def IsLink : Entry → Prop
  | .call (.register _) | .call (.connect ..) | .call .disconnect => True
  | _ => False

/-- A connection is there, or lost, or the client subscribes. -/
def IsSession : Entry → Prop
  | .connected | .disconnected | .call (.subscribe _) => True
  | _ => False

/-- A connection is there, or lost, or given up. -/
def IsLoss : Entry → Prop
  | .connected | .disconnected | .call .disconnect => True
  | _ => False

/-- Even numbers have their own topic. -/
def topicOf (ran : Nat) : List Char := if ran % 2 = 0 then publishTopicEven else publishTopicOdd

/-- When each call may be made. -/
def Due (pre : List Entry) : Call → Prop
  | .register _ => pre = []
  | .usernamePassword .. => ∃ clientId, pre = [.call (.register clientId)]
  | .connect .. => ∃ e, Last IsLink pre e ∧ ∀ host port keepAlive,
      e ≠ .call (.connect host port keepAlive)
  | .subscribe topic => Last IsSession pre .connected ∧ topic = subTopicText
  | .publish p => Last IsSession pre (.call (.subscribe subTopicText)) ∧
      ∃ ran addr, p = { topic := topicOf ran, payload := payload ran addr }
  | .disconnect => Last IsLoss pre .disconnected

/-- A call may only be made when it is due. -/
def InOrder (pre : List Entry) (e : Entry) : Prop := ∀ call, e = .call call → Due pre call

/-- Lost connections in a row: since the last that was stable, or from 1. -/
def attemptsNext (attempts : Nat) : Entry → Nat
  | .call (.register _) => 1
  | .call .disconnect => attempts + 1
  | .stable => 0
  | _ => attempts

/-- The lost connections in a row after a log. -/
def attempts (log : List Entry) : Nat := log.foldl attemptsNext 0

theorem attempts_append (log : List Entry) (e : Entry) :
    attempts (log ++ [e]) = attemptsNext (attempts log) e := by
  unfold attempts
  rw [List.foldl_append]
  rfl

/-! ## The invariant -/

/-- What the log says in each stage. -/
def Staged (log : List Entry) : Stage → Prop
  | .init => log = []
  | .registered => ∃ e, Last IsLink log e ∧ ∀ host port keepAlive,
      e ≠ .call (.connect host port keepAlive)
  | .connecting => True
  | .connected => Last IsSession log .connected
  | .publishing => Last IsSession log (.call (.subscribe subTopicText))
  | .disconnected => Last IsLoss log .disconnected
  | .newconfig | .configError | .error => False

/-- The stage and the counter of the client are what the log says. -/
structure Inv (clockSecond : Nat) (c : Client) : Prop where
  staged : Staged c.log c.stage
  called : c.stage ≠ .init → c.CallsBack
  count : c.connectAttempt.toNat = attempts c.log % 2 ^ 8
  inOrder : Each InOrder c.log
  configured : Configured c.state
  topic : c.subTopic.string = subTopicText
  interval : c.conf.pubInterval = publishInterval clockSecond

variable {clockSecond : Nat} {c : Client} {tick : Tick}

theorem CallsBack.append (h : c.CallsBack) (l : List Entry) :
    ∃ clientId, .call (.register clientId) ∈ c.log ++ l := by
  obtain ⟨clientId, hmem⟩ := h
  exact ⟨clientId, List.mem_append_left l hmem⟩

theorem Inv.etimerSet (h : Inv clockSecond c) (interval : Nat) :
    Inv clockSecond (c.etimerSet interval) :=
  ⟨h.staged, h.called, h.count, h.inOrder, h.configured, h.topic, h.interval⟩

theorem Inv.expired (h : Inv clockSecond c) :
    Inv clockSecond { c with publishPeriodicTimer := none } :=
  ⟨h.staged, h.called, h.count, h.inOrder, h.configured, h.topic, h.interval⟩

theorem Inv.connectToBroker (h : Inv clockSecond c) (hstage : c.stage = .registered) :
    Inv clockSecond c.connectToBroker := by
  have hstaged := h.staged
  rw [hstage] at hstaged
  refine ⟨trivial, fun _ => (h.called (by simp [hstage])).append _, ?_, ?_, h.configured, h.topic,
    h.interval⟩
  · simp [Client.connectToBroker, Client.call, attempts_append, attemptsNext, h.count]
  · refine each_append_singleton.mpr ⟨h.inOrder, ?_⟩
    rintro call ⟨⟩
    exact hstaged

theorem Inv.registered (h : Inv clockSecond c) (hstage : c.stage = .registered) :
    Inv clockSecond (c.registered clockSecond tick) := by
  unfold Client.registered
  split
  · exact (h.connectToBroker hstage).etimerSet _
  · exact h.etimerSet _

theorem Inv.init (h : Inv clockSecond c) (hstage : c.stage = .init) :
    Inv clockSecond c.init ∧ c.init.stage = .registered := by
  have hlog : c.log = [] := by
    have hstaged := h.staged
    rwa [hstage] at hstaged
  refine ⟨⟨?_, fun _ => ⟨c.clientId.string, ?_⟩, ?_, ?_, h.configured, h.topic, h.interval⟩, rfl⟩
  · refine ⟨.call (.register c.clientId.string), ?_, by simp⟩
    have hfirst : Last IsLink (c.log ++ [.call (.register c.clientId.string)])
        (.call (.register c.clientId.string)) := last_append_singleton.mpr (.inl ⟨trivial, rfl⟩)
    exact last_append_singleton.mpr (.inr ⟨id, hfirst⟩)
  · simp [Client.init, Client.call, hlog]
  · simp [Client.init, Client.call, hlog, attempts, attemptsNext]
  · refine each_append_singleton.mpr ⟨each_append_singleton.mpr ⟨h.inOrder, ?_⟩, ?_⟩
    · rintro call ⟨⟩
      exact hlog
    · rintro call ⟨⟩
      exact ⟨c.clientId.string, by simp [Client.call, hlog]⟩

theorem Inv.stable (h : Inv clockSecond c) (hstage : c.stage = .connected ∨ c.stage = .publishing) :
    Inv clockSecond { c with connectAttempt := 0, log := c.log ++ [.stable] } := by
  have hstaged := h.staged
  refine ⟨?_, fun hne => (h.called hne).append _, ?_, ?_, h.configured, h.topic, h.interval⟩
  · rcases hstage with hstage | hstage
    all_goals
      rw [hstage] at hstaged ⊢
      exact last_append_singleton.mpr (.inr ⟨id, hstaged⟩)
  · simp [attempts_append, attemptsNext]
  · exact each_append_singleton.mpr ⟨h.inOrder, nofun⟩

theorem Inv.subscribe (h : Inv clockSecond c) (hstage : c.stage = .connected) :
    Inv clockSecond { c.subscribe with stage := .publishing } := by
  have hstaged := h.staged
  rw [hstage] at hstaged
  have hcalled := h.called (by simp [hstage])
  refine ⟨?_, fun _ => hcalled.append _, ?_, ?_, h.configured, h.topic, h.interval⟩
  · exact last_append_singleton.mpr (.inl ⟨trivial, by rw [h.topic]⟩)
  · simp [Client.subscribe, Client.call, attempts_append, attemptsNext, h.count]
  · refine each_append_singleton.mpr ⟨h.inOrder, ?_⟩
    rintro call ⟨⟩
    exact ⟨hstaged, h.topic⟩

theorem publish_call (hconfigured : Configured c.state) (tick : Tick) :
    c.publish tick = { c with state := (Es4.publish tick.ran tick.router c.state).1 }.call
      (.publish { topic := topicOf tick.ran, payload := payload tick.ran tick.router }) := by
  have hpublish := publish_eq tick.ran_lt tick.router c.state
  rw [hconfigured.even, hconfigured.odd] at hpublish
  unfold Client.publish
  split
  · next heq => simp [heq] at hpublish
  · next heq =>
    rw [heq] at hpublish ⊢
    rw [Option.some.inj hpublish]
    rfl

theorem Inv.publish (h : Inv clockSecond c) (hstage : c.stage = .publishing) :
    Inv clockSecond (c.publish tick) := by
  have hstaged := h.staged
  rw [hstage] at hstaged
  have hcalled := h.called (by simp [hstage])
  rw [publish_call h.configured]
  refine ⟨?_, fun _ => hcalled.append _, ?_, ?_, configured_publish h.configured _ _, h.topic,
    h.interval⟩
  · show Staged _ c.stage
    rw [hstage]
    exact last_append_singleton.mpr (.inr ⟨id, hstaged⟩)
  · simp [Client.call, attempts_append, attemptsNext, h.count]
  · refine each_append_singleton.mpr ⟨h.inOrder, ?_⟩
    rintro call ⟨⟩
    exact ⟨hstaged, tick.ran, tick.router, rfl⟩

theorem Inv.connected (h : Inv clockSecond c)
    (hstage : c.stage = .connected ∨ c.stage = .publishing) :
    Inv clockSecond (c.connected clockSecond tick) := by
  have hready {c : Client} (h : Inv clockSecond c)
      (hstage : c.stage = .connected ∨ c.stage = .publishing) :
      Inv clockSecond (if c.stage = .connected then { c.subscribe with stage := .publishing }
        else c.publish tick) := by
    split
    · next hc => exact h.subscribe hc
    · next hc => exact h.publish (hstage.resolve_left hc)
  unfold Client.connected
  split
  all_goals split
  · exact (hready (h.stable hstage) hstage).etimerSet _
  · exact (h.stable hstage).etimerSet _
  · exact (hready h hstage).etimerSet _
  · exact h.etimerSet _

theorem Inv.disconnected (h : Inv clockSecond c) (hstage : c.stage = .disconnected) :
    Inv clockSecond (c.disconnected clockSecond) := by
  have hstaged := h.staged
  rw [hstage] at hstaged
  have hcalled := h.called (by simp [hstage])
  unfold Client.disconnected
  rw [if_pos (.inr rfl)]
  refine ⟨?_, fun _ => hcalled.append _, ?_, ?_, h.configured, h.topic, h.interval⟩
  · exact ⟨.call .disconnect, last_append_singleton.mpr (.inl ⟨trivial, rfl⟩), by simp⟩
  · simp [Client.call, Client.etimerSet, attempts_append, attemptsNext, UInt8.toNat_add, h.count]
  · refine each_append_singleton.mpr ⟨h.inOrder, ?_⟩
    rintro call ⟨⟩
    exact hstaged

theorem Inv.stateMachine (h : Inv clockSecond c) :
    Inv clockSecond (c.stateMachine clockSecond tick) := by
  have hstaged := h.staged
  unfold Client.stateMachine
  split
  · next hstage =>
    obtain ⟨hinit, hregistered⟩ := h.init hstage
    exact hinit.registered hregistered
  · next hstage => exact h.registered hstage
  · exact h.etimerSet _
  · next hstage => exact h.connected (.inl hstage)
  · next hstage => exact h.connected (.inr hstage)
  · next hstage => exact h.disconnected hstage
  all_goals
    next hstage =>
    rw [hstage] at hstaged
    exact hstaged.elim

/-! ## The start -/

theorem length_hex2 (b : UInt8) : (hex2 b).length ≤ 2 := by
  have hdigits : (Nat.toDigits 16 b.toNat).length ≤ 2 :=
    (Nat.length_toDigits_le_iff (by decide) (by decide)).mpr b.toNat_lt
  unfold hex2
  simp only
  split
  · rw [List.length_cons]; omega
  · exact hdigits

theorem length_clientIdText {conf : Config} (linkaddr : Vector UInt8 8)
    (horg : conf.orgId.string = "mqtt-demo".toList) (htype : conf.typeId.string = "native".toList) :
    (clientIdText conf linkaddr).length < bufferSize := by
  have h0 := length_hex2 linkaddr[0]
  have h1 := length_hex2 linkaddr[1]
  have h2 := length_hex2 linkaddr[2]
  have h5 := length_hex2 linkaddr[5]
  have h6 := length_hex2 linkaddr[6]
  have h7 := length_hex2 linkaddr[7]
  unfold clientIdText bufferSize
  rw [horg, htype]
  simp only [List.length_append]
  have hd : "d:".toList.length = 2 := by decide
  have hcolon : ":".toList.length = 1 := by decide
  have horg : "mqtt-demo".toList.length = 9 := by decide
  have htype : "native".toList.length = 6 := by decide
  omega

theorem constructClientId_eq {linkaddr : Vector UInt8 8}
    (h : (clientIdText c.conf linkaddr).length < bufferSize) :
    c.constructClientId linkaddr = ({ c with clientId :=
      (c.clientId.snprintf 0 bufferSize (clientIdText c.conf linkaddr)).1 }, true) := by
  unfold constructClientId
  simp [Buffer.snprintf_length, Nat.not_le_of_lt h]

theorem constructSubTopic_eq (c : Client) :
    ∃ subTopic, subTopic.string = subTopicText ∧
      c.constructSubTopic = ({ c with subTopic := subTopic }, true) := by
  have hfits : subTopicText.length < bufferSize := by decide
  have hnil : [] <+: c.subTopic.chars := List.nil_prefix
  have hprefix := Buffer.snprintf_append hnil (Nat.zero_add _) hfits
  refine ⟨(c.subTopic.snprintf 0 bufferSize subTopicText).1,
    Buffer.string_eq hprefix (by decide), ?_⟩
  unfold constructSubTopic
  simp only [Buffer.snprintf_length, ge_iff_le, Nat.not_le_of_lt hfits, decide_false,
    Bool.not_false]

theorem updateConfig_eq (clockSecond : Nat) (linkaddr : Vector UInt8 8) (loaded : Client) :
    ∃ clientId subTopic state, subTopic.string = subTopicText ∧ Configured state ∧
      (loaded.initConfig clockSecond).updateConfig linkaddr =
        { loaded.initConfig clockSecond with
          stage := .init, clientId := clientId, subTopic := subTopic, state := state,
          publishPeriodicTimer := some 0 } := by
  have horg : ((Buffer.zeros 32).write 0 "mqtt-demo".toList).string = "mqtt-demo".toList := by
    decide
  have htype : ((Buffer.zeros 32).write 0 "native".toList).string = "native".toList := by decide
  have hclient := constructClientId_eq (c := loaded.initConfig clockSecond)
    (length_clientIdText linkaddr horg htype)
  generalize ((loaded.initConfig clockSecond).clientId.snprintf 0 bufferSize
    (clientIdText (loaded.initConfig clockSecond).conf linkaddr)).1 = clientId at hclient
  obtain ⟨subTopic, htopic, hsub⟩ :=
    constructSubTopic_eq { loaded.initConfig clockSecond with clientId := clientId }
  have hpub := constructPubTopic_ok loaded.state
  have hconfigured := configured_constructPubTopic loaded.state
  refine ⟨clientId, subTopic, { (constructPubTopic loaded.state).1 with seqNrValue := 0 }, htopic,
    ⟨hconfigured.odd, hconfigured.even⟩, ?_⟩
  unfold updateConfig
  rw [hclient]
  simp only [hsub, Bool.not_true, Bool.false_eq_true, if_false]
  have hstate : (loaded.initConfig clockSecond).state = loaded.state := rfl
  rw [hstate, hpub]
  simp [Client.etimerSet]

theorem Inv.start {linkaddr : Vector UInt8 8} (h : (system clockSecond linkaddr).start c) :
    Inv clockSecond c := by
  obtain ⟨loaded, ⟨hattempt, -, hlog⟩, rfl⟩ := h
  obtain ⟨clientId, subTopic, state, htopic, hconfigured, heq⟩ :=
    updateConfig_eq clockSecond linkaddr loaded
  rw [heq]
  refine ⟨hlog, fun hne => absurd rfl hne, ?_, ?_, hconfigured, htopic, rfl⟩
  · simp [initConfig, hattempt, hlog, attempts]
  · show Each InOrder loaded.log
    rw [hlog]
    exact Each.nil

theorem Inv.step {d : Client} {event : Event} (h : Inv clockSecond c)
    (hstep : Step clockSecond c event d) : Inv clockSecond d := by
  cases hstep with
  | timer => exact h.expired.stateMachine
  | connected hcalls =>
    refine ⟨last_append_singleton.mpr (.inl ⟨trivial, rfl⟩), fun _ => hcalls.append _, ?_,
      each_append_singleton.mpr ⟨h.inOrder, nofun⟩, h.configured, h.topic, h.interval⟩
    simp [attempts_append, attemptsNext, h.count]
  | disconnected hcalls =>
    refine ⟨last_append_singleton.mpr (.inl ⟨trivial, rfl⟩), fun _ => hcalls.append _, ?_,
      each_append_singleton.mpr ⟨h.inOrder, nofun⟩, h.configured, h.topic, h.interval⟩
    simp [attempts_append, attemptsNext, h.count]
  | other => exact h

theorem Inv.reachable {linkaddr : Vector UInt8 8} (h : (system clockSecond linkaddr).Reachable c) :
    Inv clockSecond c :=
  h.invariant (Inv clockSecond) (fun _ => Inv.start) fun _ _ _ => Inv.step

/-! ## A lost connection -/

/-- The static variables, all zero. -/
def zeroed : Client where
  stage := .init
  connectAttempt := 0
  clientId := .zeros bufferSize
  subTopic := .zeros bufferSize
  state := {
    pubTopicOdd := .zeros bufferSize
    pubTopicEven := .zeros bufferSize
    seqNrValue := 0
    appBuffer := .zeros appBufferSize }
  conf := {
    orgId := .zeros 32
    typeId := .zeros 32
    authToken := .zeros 32
    brokerIp := .zeros 64
    cmdType := .zeros 8
    pubInterval := 0
    brokerPort := 0 }
  publishPeriodicTimer := none
  log := []

def online : Tick where
  global := true
  expired := false
  ready := true
  outBufferSent := true
  ran := 0
  ran_lt := by decide
  router := { u8 := Vector.replicate 16 0 }

/-- A client that has asked for a connection and is told that it is lost. -/
def lost : Client :=
  let c := (zeroed.initConfig 128).updateConfig (Vector.replicate 8 0)
  let c := { c with publishPeriodicTimer := none }.stateMachine 128 online
  { c with stage := .disconnected, log := c.log ++ [.disconnected] }

theorem reachable_lost : (system 128 (Vector.replicate 8 0)).Reachable lost := by
  obtain ⟨clientId, subTopic, state, -, -, heq⟩ :=
    updateConfig_eq 128 (Vector.replicate 8 0) zeroed
  have hstart : (system 128 (Vector.replicate 8 0)).Reachable
      ((zeroed.initConfig 128).updateConfig (Vector.replicate 8 0)) :=
    .start ⟨zeroed, ⟨rfl, rfl, rfl⟩, rfl⟩
  have htimer : Step 128 ((zeroed.initConfig 128).updateConfig (Vector.replicate 8 0))
      (.timer online) _ := .timer (by rw [heq])
  refine (hstart.step htimer).step (Step.disconnected ⟨clientId.string, ?_⟩)
  rw [heq]
  simp [stateMachine, init, Client.registered, connectToBroker, call, Client.etimerSet, online]

theorem timer_lost : lost.publishPeriodicTimer = some (netConnectPeriodic 128) := by
  obtain ⟨clientId, subTopic, state, -, -, heq⟩ :=
    updateConfig_eq 128 (Vector.replicate 8 0) zeroed
  unfold lost
  rw [heq]
  rfl

/-! ## What holds in every run -/

/-- Every call is made when it is due. In particular the client publishes only with a
subscription to the connection it has, and never connects twice without a disconnect. -/
theorem calls_in_order {linkaddr : Vector UInt8 8}
    (h : (system clockSecond linkaddr).Reachable c) : Each InOrder c.log :=
  (Inv.reachable h).inOrder

theorem calls_in_order_lost : Each InOrder lost.log := calls_in_order reachable_lost

theorem backOff_eq (connectAttempt : UInt8) : backOff clockSecond connectAttempt =
    reconnectInterval clockSecond <<< min 3 connectAttempt.toNat := by
  have hlt : connectAttempt < 3 ↔ connectAttempt.toNat < 3 := UInt8.lt_iff_toNat_lt
  unfold backOff
  split
  · next h => rw [Nat.min_eq_right (Nat.le_of_lt (hlt.mp h))]
  · next h => rw [Nat.min_eq_left (Nat.le_of_not_lt fun h' => h (hlt.mpr h'))]

theorem disconnected_eq (c : Client) : c.disconnected clockSecond =
    { c with
      stage := .registered, connectAttempt := c.connectAttempt + 1,
      log := c.log ++ [.call .disconnect],
      publishPeriodicTimer := some (backOff clockSecond (c.connectAttempt + 1)) } := by
  unfold Client.disconnected
  rw [if_pos (.inr rfl)]
  rfl

/-- After the `n`-th lost connection in a row the client waits for twice as long as before,
up to eight times, and from the 256th on again: the counter is a byte. -/
theorem back_off {linkaddr : Vector UInt8 8} {d : Client}
    (h : (system clockSecond linkaddr).Reachable c) (hstage : c.stage = .disconnected)
    (hstep : Step clockSecond c (.timer tick) d) :
    d.stage = .registered ∧ d.log = c.log ++ [.call .disconnect] ∧
      d.publishPeriodicTimer =
        some (reconnectInterval clockSecond <<< min 3 (attempts d.log % 2 ^ 8)) := by
  have hinv := Inv.reachable h
  cases hstep with
  | timer =>
    unfold Client.stateMachine
    simp only [hstage]
    rw [disconnected_eq]
    refine ⟨rfl, rfl, ?_⟩
    simp [backOff_eq, attempts_append, attemptsNext, UInt8.toNat_add, hinv.count]

theorem back_off_lost : ∃ d, Step 128 lost (.timer online) d ∧ d.stage = .registered ∧
    d.log = lost.log ++ [.call .disconnect] ∧
      d.publishPeriodicTimer =
        some (reconnectInterval 128 <<< min 3 (attempts d.log % 2 ^ 8)) :=
  ⟨_, .timer timer_lost, back_off reachable_lost rfl (.timer timer_lost)⟩

end Nsds.Es4.Client
