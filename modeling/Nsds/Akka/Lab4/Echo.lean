import Nsds.Akka.Lab4.Code

/-!
# Echoes

The server answers in the order in which the messages came, however often it is sent to
sleep. A client knows an echo by its sender, so that nothing goes round twice.
-/

namespace Nsds.Lab4

open Stash Transition

variable {C X : Type}

/-- The echo that is due for what arrived at the server. -/
def Envelope.echo : Envelope C X → Option (Echo C X)
  | ⟨.message p, sender⟩ => some (sender, p)
  | _ => none

theorem receive_lawful :
    Lawful (receive (C := C) (X := X)) (· = .awake) some Envelope.echo := by
  constructor
  case stash =>
    rintro b ⟨request, sender⟩ hstash
    cases b <;> cases request <;>
      simp_all [receive, onSleepMessage, onWakeupMessage, onMessageStatusWake,
        onMessageStatusSleep, unhandled]
  case handle =>
    rintro b ⟨request, sender⟩ hstash
    cases b <;> cases request <;>
      simp_all [receive, onSleepMessage, onWakeupMessage, onMessageStatusWake,
        onMessageStatusSleep, unhandled, Envelope.echo]
  case opens =>
    rintro b ⟨request, sender⟩ hopen
    cases b <;> cases request <;>
      simp_all [receive, onSleepMessage, onWakeupMessage, onMessageStatusWake,
        onMessageStatusSleep, unhandled]

/-! ## What a client passes on -/

/-- What `main` told, among the messages in a client's mailbox. -/
def ClientEnvelope.fromMain : ClientEnvelope C X → List (Message X)
  | ⟨.request request, .noSender⟩ => request.messages
  | _ => []

/-- The messages that `c` has passed on to the server. -/
def State.forwarded [DecidableEq C] (s : State C X) (c : C) : List (Message X) :=
  echoesTo c (s.server.arrived.filterMap Envelope.echo)

/-- Only the main program and the server write to a client. -/
structure ClientEnvelope.Known (envelope : ClientEnvelope C X) : Prop where
  sender : envelope.sender = .noSender ∨ envelope.sender = .server
  reference : ∀ ref, envelope.msg = .serverReference ref → ref = .server
  echo : envelope.sender = .server → ∃ msg, envelope.msg = .request (.message msg)

/-- A client passes on the messages that it was given, in order. -/
structure Passes [DecidableEq C] (s : State C X) (c : C) : Prop where
  server : s.clients c = { server := some .server }
  known : ∀ envelope ∈ s.mailbox c, envelope.Known
  given : s.forwarded c ++ (s.mailbox c).flatMap ClientEnvelope.fromMain = s.given c

/-! The messages that a client may get. -/

theorem request_known (request : Request X) :
    ClientEnvelope.Known (C := C) ⟨.request request, .noSender⟩ where
  sender := .inl rfl
  reference _ h := by cases h
  echo h := by cases h

theorem reference_known :
    ClientEnvelope.Known (C := C) (X := X) ⟨.serverReference .server, .noSender⟩ where
  sender := .inl rfl
  reference _ h := by cases h; rfl
  echo h := by cases h

theorem echoEnvelope_known (msg : Message X) : (echoEnvelope (C := C) msg).Known where
  sender := .inr rfl
  reference _ h := by cases h
  echo _ := ⟨msg, rfl⟩

theorem flatMap_echoEnvelope (msgs : List (Message X)) :
    (msgs.map (echoEnvelope (C := C))).flatMap ClientEnvelope.fromMain = [] := by
  induction msgs with
  | nil => rfl
  | cons msg msgs ih => exact ih

variable [DecidableEq C]

theorem echoesTo_append (c : C) (echoes₁ echoes₂ : List (Echo C X)) :
    echoesTo c (echoes₁ ++ echoes₂) = echoesTo c echoes₁ ++ echoesTo c echoes₂ := by
  simp only [echoesTo, List.filter_append, List.map_append]

abbrev Client.configured : Client C := { server := some .server }

theorem supervised_echo {envelope : ClientEnvelope C X} (h : envelope.Known)
    (hsender : envelope.sender = .server) :
    Client.configured.supervised envelope = (.configured, none) := by
  obtain ⟨msg, hmsg⟩ := h.echo hsender
  rcases envelope with ⟨_, _⟩
  subst hmsg hsender
  simp [Client.supervised, Client.receive, Client.onMessage]

theorem supervised_known {envelope : ClientEnvelope C X} (h : envelope.Known) :
    (Client.configured.supervised envelope = (.configured, none) ∧ envelope.fromMain = []) ∨
    ∃ request, Client.configured.supervised envelope = (.configured, some (.server, request)) ∧
      envelope.fromMain = request.messages := by
  rcases h.sender with hsender | hsender
  · obtain ⟨msg, sender⟩ := envelope
    subst hsender
    cases msg with
    | serverReference ref =>
      obtain rfl := h.reference ref rfl
      exact .inl ⟨rfl, rfl⟩
    | request request =>
      refine .inr ⟨request, ?_, rfl⟩
      cases request <;>
        simp [Client.supervised, Client.receive, Client.onMessage, Client.tellServer]
  · refine .inl ⟨supervised_echo h hsender, ?_⟩
    rcases envelope with ⟨msg, _⟩
    subst hsender
    cases msg <;> rfl

theorem echoesTo_tell (server : Actor Behavior (Envelope C X) (Echo C X)) (c c' : C)
    (request : Request X) :
    echoesTo c' ((Actor.tell server c (some (.server, request))).arrived.filterMap Envelope.echo) =
      echoesTo c' (server.arrived.filterMap Envelope.echo) ++
        if c = c' then request.messages else [] := by
  unfold Actor.tell Actor.arrive
  rw [List.filterMap_append, echoesTo_append]
  congr 1
  rcases eq_or_ne c c' with rfl | hne
  · rw [if_pos rfl]
    cases request <;> simp [Envelope.echo, echoesTo, Request.messages]
  · rw [if_neg hne]
    cases request <;> simp [Envelope.echo, echoesTo, hne]

theorem echoesTo_supervised {envelope : ClientEnvelope C X} (h : envelope.Known)
    (server : Actor Behavior (Envelope C X) (Echo C X)) (c c' : C) :
    echoesTo c' ((Actor.tell server c (Client.configured.supervised envelope).2).arrived.filterMap
        Envelope.echo) =
      echoesTo c' (server.arrived.filterMap Envelope.echo) ++
        if c = c' then envelope.fromMain else [] := by
  rcases supervised_known h with ⟨hsup, hmain⟩ | ⟨request, hsup, hmain⟩
  · rw [hsup, hmain, ite_self, List.append_nil]
    rfl
  · rw [hsup, hmain]
    exact echoesTo_tell server c c' request

theorem Passes.push {s t : State C X} {c : C} (h : Passes s c)
    (hserver : t.server.arrived = s.server.arrived) (hclients : t.clients c = s.clients c)
    (added : List (ClientEnvelope C X)) (hmailbox : t.mailbox c = s.mailbox c ++ added)
    (hadded : ∀ envelope ∈ added, envelope.Known)
    (hgiven : t.given c = s.given c ++ added.flatMap ClientEnvelope.fromMain) : Passes t c where
  server := hclients.trans h.server
  known := by
    rw [hmailbox, List.forall_mem_append]
    exact ⟨h.known, hadded⟩
  given := by
    unfold State.forwarded
    rw [hserver, hmailbox, hgiven, ← h.given, List.flatMap_append, List.append_assoc]
    rfl

theorem Passes.client {s : State C X} (hs : ∀ c, Passes s c) {c : C}
    {envelope : ClientEnvelope C X} {rest : List (ClientEnvelope C X)}
    (hm : s.mailbox c = envelope :: rest) (c' : C) :
    Passes { s with
      server := Actor.tell s.server c ((s.clients c).supervised envelope).2
      clients := Function.update s.clients c ((s.clients c).supervised envelope).1
      mailbox := Function.update s.mailbox c rest } c' := by
  have hknown := (hs c).known
  have hgiven := (hs c).given
  rw [hm] at hknown hgiven
  have henvelope := hknown envelope List.mem_cons_self
  have hforwarded (c' : C) : State.forwarded { s with
      server := Actor.tell s.server c ((s.clients c).supervised envelope).2 } c' =
      s.forwarded c' ++ if c = c' then envelope.fromMain else [] := by
    rw [(hs c).server]
    exact echoesTo_supervised henvelope s.server c c'
  rcases eq_or_ne c' c with rfl | hne
  · refine ⟨?_, ?_, ?_⟩
    · simp only [Function.update_self, (hs c').server]
      rcases supervised_known henvelope with ⟨hsup, _⟩ | ⟨_, hsup, _⟩ <;> rw [hsup]
    · simp only [Function.update_self]
      exact fun e he => hknown e (List.mem_cons_of_mem _ he)
    · rw [List.flatMap_cons, ← List.append_assoc] at hgiven
      simp only [← hgiven, Function.update_self]
      exact congrArg (· ++ _) ((hforwarded c').trans (by rw [if_pos rfl]))
  · refine ⟨?_, ?_, ?_⟩
    · simpa only [Function.update_of_ne hne] using (hs c').server
    · simpa only [Function.update_of_ne hne] using (hs c').known
    · simp only [← (hs c').given, Function.update_of_ne hne]
      refine congrArg (· ++ _) ((hforwarded c').trans ?_)
      rw [if_neg hne.symm, List.append_nil]

theorem passes {s : State C X} (h : (system C X).Reachable s) : ∀ c, Passes s c := by
  refine h.invariant (fun s => ∀ c, Passes s c) ?_ ?_
  · rintro s ⟨hserver, hclients, hmailbox, hgiven⟩ c
    refine ⟨?_, ?_, ?_⟩
    · exact congrArg Client.mk (hclients c)
    · rw [hmailbox c]
      exact List.forall_mem_nil _
    · unfold State.forwarded
      rw [hmailbox c, hgiven c, hserver]
      rfl
  · intro s a t hs hstep c'
    cases hstep with
    | main c request =>
      rcases eq_or_ne c' c with rfl | hne
      · refine (hs c').push rfl rfl [⟨.request request, .noSender⟩] (Function.update_self ..) ?_ ?_
        · simpa only [List.forall_mem_singleton] using request_known request
        · simp only [Function.update_self, List.flatMap_singleton, ClientEnvelope.fromMain]
      · refine (hs c').push rfl rfl [] ?_ (List.forall_mem_nil _) ?_
        · simp only [Function.update_of_ne hne, List.append_nil]
        · simp only [Function.update_of_ne hne, List.flatMap_nil, List.append_nil]
    | configure c =>
      rcases eq_or_ne c' c with rfl | hne
      · refine (hs c').push rfl rfl [⟨.serverReference .server, .noSender⟩]
          (Function.update_self ..) ?_ (List.append_nil _).symm
        simpa only [List.forall_mem_singleton] using reference_known
      · refine (hs c').push rfl rfl [] ?_ (List.forall_mem_nil _) (List.append_nil _).symm
        simp only [Function.update_of_ne hne, List.append_nil]
    | client c envelope rest hm => exact Passes.client hs hm c'
    | server envelope rest hm =>
      refine (hs c').push rfl rfl _ rfl ?_ ?_
      · simp only [List.forall_mem_map]
        exact fun msg _ => echoEnvelope_known msg
      · rw [flatMap_echoEnvelope, List.append_nil]

theorem server_inOrder {s : State C X} (h : (system C X).Reachable s) :
    InOrder (· = .awake) some Envelope.echo s.server := by
  refine h.invariant (fun s => InOrder _ _ _ s.server) ?_ ?_
  · rintro s ⟨hserver, _⟩
    rw [hserver]
    exact .new _
  · intro s a t hs hstep
    cases hstep with
    | main => exact hs
    | configure => exact hs
    | client c envelope rest hm =>
      unfold Actor.tell
      split
      · exact hs.arrive _
      · exact hs
    | server envelope rest hm => exact hs.react receive_lawful hm

/-- The echoes are those of the messages that came, in order, and none is for a message
that its client was not given. -/
theorem echoes_in_order {s : State C X} (h : (system C X).Reachable s) :
    s.server.sent <+: s.server.arrived.filterMap Envelope.echo ∧
    (s.server.behavior = .awake → s.server.mailbox = [] →
      s.server.sent = s.server.arrived.filterMap Envelope.echo) ∧
    (∀ c envelope, envelope ∈ s.mailbox c → envelope.sender = .server →
      (s.clients c).supervised envelope = (s.clients c, none)) ∧
    ∀ c, echoesTo c s.server.sent <+: s.given c := by
  have horder := server_inOrder h
  have hle := horder.sent_le
  rw [List.filterMap_some] at hle
  refine ⟨hle, fun hawake hmailbox => ?_, fun c envelope hmem hsender => ?_, fun c => ?_⟩
  · have hall := horder.sent_all hawake hmailbox
    rwa [List.filterMap_some] at hall
  · rw [(passes h c).server]
    exact supervised_echo ((passes h c).known envelope hmem) hsender
  · have hgiven := (passes h c).given
    exact ((hle.filter _).map _).trans ⟨_, hgiven⟩

theorem echoes_in_order_two : ∃ s : State Nat Nat,
    s.given 0 = [⟨7⟩, ⟨8⟩] ∧ s.server.sent = s.server.arrived.filterMap Envelope.echo ∧
    s.server.sent = [(.client 0, ⟨7⟩), (.client 0, ⟨8⟩)] := by
  have h0 : (system Nat Nat).Reachable
      ⟨.new .awake, fun _ => .configured, fun _ => [], fun _ => []⟩ :=
    .start ⟨rfl, fun _ => rfl, fun _ => rfl, fun _ => rfl⟩
  have h1 := h0.step (.main 0 .sleep)
  have h2 := h1.step (.main 0 (.message ⟨7⟩))
  have h3 := h2.step (.main 0 .wakeup)
  have h4 := h3.step (.main 0 (.message ⟨8⟩))
  have h5 := h4.step (.client 0 _ _ rfl)
  have h6 := h5.step (.client 0 _ _ rfl)
  have h7 := h6.step (.client 0 _ _ rfl)
  have h8 := h7.step (.client 0 _ _ rfl)
  have h9 := h8.step (.server _ _ rfl)
  have h10 := h9.step (.server _ _ rfl)
  have h11 := h10.step (.server _ _ rfl)
  have h12 := h11.step (.server _ _ rfl)
  have h13 := h12.step (.server _ _ rfl)
  exact ⟨_, rfl, (echoes_in_order h13).2.1 rfl rfl, rfl⟩

end Nsds.Lab4
