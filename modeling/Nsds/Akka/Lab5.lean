import Mathlib.Logic.Function.Basic
import Nsds.Lib.History
import Nsds.Lib.Transition

/-!
# `Akka/NSDS_akka_tutorial_and_lab`, package `com.lab5`

The contacts (`ContactActor.java`) under a supervisor (`SupervisorActor.java`) that resumes
them. Names and e-mails may be `null`. Clients are the `ActorRef`s that a message can come
from.
-/

namespace Nsds.Lab5

open History Transition

/-- `PutMsg` and `GetMsg`, of which any field may be null. -/
inductive Request where
  | put (name email : Option String)
  | get (name : Option String)
deriving DecidableEq, Repr

inductive Exn where
  | crash
  | nullPointer
deriving DecidableEq, Repr

/-- The `HashMap`. A name may have `null` as its value. -/
abbrev Contacts := Option String → Option (Option String)

variable {C : Type}

/-! ## `ContactActor` -/

namespace ContactActor

def new : Contacts := fun _ => none

/-- The text `Fail` throws, and so does a null name, before anything is put. -/
def onPutMessage (contacts : Contacts) (name email : Option String) : Except Exn Contacts :=
  match name with
  | none => .error .nullPointer
  | some text =>
    if text = "Fail" then .error .crash
    else .ok (Function.update contacts name (some email))

def onGetMessage (contacts : Contacts) (name : Option String) : String :=
  match (contacts name).join with
  | none => "NON TROVATO"
  | some email => email

/-- The map afterwards, and what is told to whom. -/
def receive (contacts : Contacts) (sender : C) : Request → Except Exn (Contacts × List (C × String))
  | .put name email => (onPutMessage contacts name email).map fun contacts => (contacts, [])
  | .get name => .ok (contacts, [(sender, onGetMessage contacts name)])

end ContactActor

/-! ## `SupervisorActor` -/

inductive Directive where
  | resume
  | restart
  | stop
  | escalate
deriving DecidableEq, Repr

namespace SupervisorActor

def retryNumber : Nat := 1

/-- `DeciderBuilder.match(Exception.class, e -> SupervisorStrategy.resume())`. -/
def decider (_ : Exn) : Directive := .resume

end SupervisorActor

/-- `restarts` is how often the child was restarted within the last `timeLength` minutes. -/
structure Child where
  contacts : Contacts
  restarts : Nat

/-- What a `OneForOneStrategy` does to a child that failed. Only a restart is limited. -/
def supervise (child : Child) : Directive → Option Child
  | .resume => some child
  | .restart =>
    if child.restarts < SupervisorActor.retryNumber then
      some { contacts := ContactActor.new, restarts := child.restarts + 1 }
    else none
  | .stop => none
  | .escalate => none

/-! ## The service -/

structure Envelope (C : Type) where
  request : Request
  sender : C
deriving DecidableEq, Repr

/-- `handled` has the messages that are done with, and what was told then. -/
structure State (C : Type) where
  child : Option Child
  mailbox : List (Envelope C)
  arrived : List (Envelope C)
  handled : List (Envelope C × List (C × String))

/-- The child handles `msg`, with `rest` behind it in the mailbox. -/
def State.handle (s : State C) (child : Child) (msg : Envelope C) (rest : List (Envelope C)) :
    State C :=
  match ContactActor.receive child.contacts msg.sender msg.request with
  | .ok (contacts, replies) =>
    { s with
      child := some { child with contacts := contacts }
      mailbox := rest
      handled := s.handled ++ [(msg, replies)] }
  | .error exn =>
    { s with
      child := supervise child (SupervisorActor.decider exn)
      mailbox := rest
      handled := s.handled ++ [(msg, [])] }

inductive Action (C : Type) where
  | send (msg : Envelope C)
  | handle (msg : Envelope C)

/-- Messages arrive at any time, and the child takes them in their order. -/
inductive Step (s : State C) : Action C → State C → Prop where
  | send (msg : Envelope C) :
      Step s (.send msg) { s with mailbox := s.mailbox ++ [msg], arrived := s.arrived ++ [msg] }
  | handle (child : Child) (msg : Envelope C) (rest : List (Envelope C))
      (hchild : s.child = some child) (hm : s.mailbox = msg :: rest) :
      Step s (.handle msg) (s.handle child msg rest)

def system (C : Type) : System (State C) (Action C) where
  start s := s = {
    child := some { contacts := ContactActor.new, restarts := 0 }
    mailbox := []
    arrived := []
    handled := [] }
  step := Step

/-! ## What the service is for -/

/-- The puts that make the handler throw. -/
def Request.Fails : Request → Prop
  | .put name _ => name = none ∨ name = some "Fail"
  | .get _ => False

/-- A put under the name. -/
def Request.Puts (name : Option String) (request : Request) : Prop :=
  ∃ email, request = .put name email

/-- `email` is that of the last put under `name`, which did not fail. -/
def LastPut (requests : List Request) (name email : Option String) : Prop :=
  Last (Request.Puts name) requests (.put name email) ∧ ¬ (Request.put name email).Fails

/-- The answer to a lookup of `name` after `requests`. -/
def Answer (requests : List Request) (name : Option String) (answer : String) : Prop :=
  LastPut requests name (some answer) ∨
    answer = "NON TROVATO" ∧ ∀ email, ¬ LastPut requests name (some email)

/-- A lookup is answered once, to its sender, and a put not at all. -/
def Served (pre : List (Envelope C × List (C × String))) (entry : Envelope C × List (C × String)) :
    Prop :=
  match entry.1.request with
  | .get name => ∃ answer, entry.2 = [(entry.1.sender, answer)] ∧
      Answer (pre.map fun entry => entry.1.request) name answer
  | .put _ _ => entry.2 = []

theorem lastPut_append_singleton (requests : List Request) (request : Request)
    (name email : Option String) :
    LastPut (requests ++ [request]) name email ↔
      request = .put name email ∧ ¬ request.Fails ∨
        LastPut requests name email ∧ ¬ request.Puts name := by
  unfold LastPut
  rw [last_append_singleton]
  constructor
  · rintro ⟨⟨-, rfl⟩ | ⟨hother, hlast⟩, hok⟩
    · exact .inl ⟨rfl, hok⟩
    · exact .inr ⟨⟨hlast, hok⟩, hother⟩
  · rintro (⟨rfl, hok⟩ | ⟨⟨hlast, hok⟩, hother⟩)
    · exact ⟨.inl ⟨⟨email, rfl⟩, rfl⟩, hok⟩
    · exact ⟨.inr ⟨hother, hlast⟩, hok⟩

/-! ## The invariant -/

/-- The map has what was put last, under every name. -/
def Stores (contacts : Contacts) (requests : List Request) : Prop :=
  ∀ name email, contacts name = some email ↔ LastPut requests name email

theorem stores_new : Stores ContactActor.new [] := by
  intro name email
  constructor
  · intro h
    cases h
  · intro h
    exact absurd h.1 not_last_nil

theorem Stores.get {contacts : Contacts} {requests : List Request} (h : Stores contacts requests)
    (name : Option String) : Stores contacts (requests ++ [.get name]) := by
  intro name' email
  rw [lastPut_append_singleton, h name' email]
  simp [Request.Puts]

theorem Stores.fail {contacts : Contacts} {requests : List Request} (h : Stores contacts requests)
    {request : Request} (hfails : request.Fails) : Stores contacts (requests ++ [request]) := by
  intro name email
  rw [lastPut_append_singleton, h name email]
  constructor
  · intro hlast
    refine .inr ⟨hlast, ?_⟩
    rintro ⟨email', rfl⟩
    exact hlast.2 hfails
  · rintro (⟨-, hok⟩ | ⟨hlast, -⟩)
    · exact absurd hfails hok
    · exact hlast

theorem Stores.put {contacts : Contacts} {requests : List Request} (h : Stores contacts requests)
    {name email : Option String} (hok : ¬ (Request.put name email).Fails) :
    Stores (Function.update contacts name (some email)) (requests ++ [.put name email]) := by
  intro name' email'
  rw [lastPut_append_singleton]
  rcases eq_or_ne name' name with rfl | hne
  · rw [Function.update_self]
    simp [hok, Request.Puts]
  · rw [Function.update_of_ne hne, h name' email']
    simp [hne.symm, Request.Puts]

theorem onGetMessage_answer {contacts : Contacts} {requests : List Request}
    (h : Stores contacts requests) (name : Option String) :
    Answer requests name (ContactActor.onGetMessage contacts name) := by
  unfold ContactActor.onGetMessage
  rcases hjoin : (contacts name).join with _ | email
  · refine .inr ⟨rfl, fun email hlast => ?_⟩
    rw [(h name (some email)).mpr hlast] at hjoin
    cases hjoin
  · exact .inl ((h name (some email)).mp (Option.join_eq_some_iff.mp hjoin))

theorem onPutMessage_fails {contacts : Contacts} {name email : Option String}
    (h : (Request.put name email).Fails) :
    ∃ exn, ContactActor.onPutMessage contacts name email = .error exn := by
  rcases h with rfl | rfl
  · exact ⟨.nullPointer, rfl⟩
  · exact ⟨.crash, by simp [ContactActor.onPutMessage]⟩

theorem onPutMessage_ok {contacts : Contacts} {name email : Option String}
    (h : ¬ (Request.put name email).Fails) :
    ContactActor.onPutMessage contacts name email =
      .ok (Function.update contacts name (some email)) := by
  obtain ⟨hnull, hfail⟩ := not_or.mp h
  obtain ⟨text, rfl⟩ := Option.ne_none_iff_exists'.mp hnull
  exact if_neg fun heq => hfail (by rw [heq])

/-- The child is alive, has what was put last, and everything was served in order. -/
structure Inv (s : State C) : Prop where
  child : ∃ child, s.child = some child ∧
    Stores child.contacts (s.handled.map fun entry => entry.1.request)
  served : Each Served s.handled
  arrived : s.arrived = s.handled.map Prod.fst ++ s.mailbox

theorem handle_fails (s : State C) (child : Child) {msg : Envelope C} (rest : List (Envelope C))
    (h : msg.request.Fails) : s.handle child msg rest =
      { s with child := some child, mailbox := rest, handled := s.handled ++ [(msg, [])] } := by
  obtain ⟨request, sender⟩ := msg
  cases request with
  | put name email =>
    obtain ⟨exn, herror⟩ := @onPutMessage_fails child.contacts _ _ h
    simp only [State.handle, ContactActor.receive, herror, Except.map]
    rfl
  | get name => exact absurd h id

theorem handle_put (s : State C) (child : Child) {name email : Option String} (sender : C)
    (rest : List (Envelope C)) (hok : ¬ (Request.put name email).Fails) :
    s.handle child ⟨.put name email, sender⟩ rest = { s with
      child := some { child with contacts := Function.update child.contacts name (some email) }
      mailbox := rest
      handled := s.handled ++ [(⟨.put name email, sender⟩, [])] } := by
  simp only [State.handle, ContactActor.receive, onPutMessage_ok hok, Except.map]

theorem handle_get (s : State C) (child : Child) (name : Option String) (sender : C)
    (rest : List (Envelope C)) : s.handle child ⟨.get name, sender⟩ rest = { s with
      child := some child
      mailbox := rest
      handled := s.handled ++
        [(⟨.get name, sender⟩, [(sender, ContactActor.onGetMessage child.contacts name)])] } := rfl

theorem Inv.handle {s : State C} (h : Inv s) {child : Child} (hchild : s.child = some child)
    {msg : Envelope C} {rest : List (Envelope C)} (hm : s.mailbox = msg :: rest) :
    Inv (s.handle child msg rest) := by
  obtain ⟨⟨child', hchild', hstores⟩, hserved, harrived⟩ := h
  obtain rfl : child = child' := Option.some.inj (hchild.symm.trans hchild')
  have harrived' (replies : List (C × String)) :
      s.arrived = (s.handled ++ [(msg, replies)]).map Prod.fst ++ rest := by
    simp [harrived, hm]
  have happend (replies : List (C × String)) :
      (s.handled ++ [(msg, replies)]).map (fun entry => entry.1.request) =
        s.handled.map (fun entry => entry.1.request) ++ [msg.request] := by
    simp
  obtain ⟨request, sender⟩ := msg
  cases request with
  | put name email =>
    have hserved' : Each Served (s.handled ++ [(⟨.put name email, sender⟩, [])]) :=
      each_append_singleton.mpr ⟨hserved, rfl⟩
    rcases Classical.em (Request.put name email).Fails with hfails | hok
    · rw [handle_fails s child rest hfails]
      refine ⟨⟨child, rfl, ?_⟩, hserved', harrived' []⟩
      rw [happend]
      exact hstores.fail hfails
    · rw [handle_put s child sender rest hok]
      refine ⟨⟨_, rfl, ?_⟩, hserved', harrived' []⟩
      rw [happend]
      exact hstores.put hok
  | get name =>
    rw [handle_get]
    refine ⟨⟨child, rfl, ?_⟩, each_append_singleton.mpr ⟨hserved, ?_⟩, harrived' _⟩
    · rw [happend]
      exact hstores.get name
    · exact ⟨_, rfl, onGetMessage_answer hstores name⟩

theorem Inv.send {s : State C} (h : Inv s) (msg : Envelope C) :
    Inv { s with mailbox := s.mailbox ++ [msg], arrived := s.arrived ++ [msg] } :=
  ⟨h.child, h.served, by rw [h.arrived, List.append_assoc]⟩

theorem inv_of_reachable {s : State C} (h : (system C).Reachable s) : Inv s := by
  refine h.invariant Inv ?_ ?_
  · rintro s rfl
    exact ⟨⟨_, rfl, stores_new⟩, .nil, rfl⟩
  · intro s action t hs hstep
    cases hstep with
    | send msg => exact hs.send msg
    | handle child msg rest hchild hm => exact hs.handle hchild hm

/-- Every lookup is answered once, with what was put last under its name, as if the puts that
fail had not been sent. The child goes on as it was after each of them. -/
theorem contacts_atomic {s : State C} (h : (system C).Reachable s) :
    Each Served s.handled ∧
      s.arrived = s.handled.map Prod.fst ++ s.mailbox ∧
      (∀ msg rest, s.mailbox = msg :: rest → ∃ t, Step s (.handle msg) t) ∧
      ∀ msg t, msg.request.Fails → Step s (.handle msg) t → t.child = s.child := by
  have hinv := inv_of_reachable h
  refine ⟨hinv.served, hinv.arrived, ?_, ?_⟩
  · intro msg rest hm
    obtain ⟨child, hchild, -⟩ := hinv.child
    exact ⟨_, .handle child msg rest hchild hm⟩
  · intro msg t hfails hstep
    cases hstep with
    | handle child _ rest hchild hm => rw [handle_fails s child rest hfails, hchild]

theorem contacts_atomic_three : ∃ s : State Nat, (system Nat).Reachable s ∧
    s.handled = [(⟨.put (some "sacca") (some "viso@a.cloud"), 0⟩, []),
      (⟨.put (some "Fail") (some "viso@a.cloud"), 0⟩, []),
      (⟨.get (some "sacca"), 1⟩, [(1, "viso@a.cloud")])] ∧ Each Served s.handled := by
  have h0 : (system Nat).Reachable ⟨some ⟨ContactActor.new, 0⟩, [], [], []⟩ := .start rfl
  have h1 := (h0.step (.send ⟨.put (some "sacca") (some "viso@a.cloud"), 0⟩)).step
    (.handle _ _ _ rfl rfl)
  have h2 := (h1.step (.send ⟨.put (some "Fail") (some "viso@a.cloud"), 0⟩)).step
    (.handle _ _ _ rfl rfl)
  have h3 := (h2.step (.send ⟨.get (some "sacca"), 1⟩)).step (.handle _ _ _ rfl rfl)
  exact ⟨_, h3, rfl, (contacts_atomic h3).1⟩

theorem null_name_not_found : ∃ s : State Nat, (system Nat).Reachable s ∧
    s.handled = [(⟨.put none (some "viso@a.cloud"), 0⟩, []),
      (⟨.get none, 0⟩, [(0, "NON TROVATO")])] := by
  have h0 : (system Nat).Reachable ⟨some ⟨ContactActor.new, 0⟩, [], [], []⟩ := .start rfl
  have h1 := (h0.step (.send ⟨.put none (some "viso@a.cloud"), 0⟩)).step (.handle _ _ _ rfl rfl)
  have h2 := (h1.step (.send ⟨.get none, 0⟩)).step (.handle _ _ _ rfl rfl)
  exact ⟨_, h2, rfl⟩

end Nsds.Lab5
