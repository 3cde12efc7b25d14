import Nsds.Akka.Lab3.Code
import Nsds.Lib.History

/-!
# Lookups

A lookup that finds an e-mail changes nothing. One that finds none makes the server throw:
the server forgets its contacts, and the client, which waits in vain, forgets the server.
-/

namespace Nsds.Lab3

open History Transition

variable {N E : Type}

/-! ## What the service is for -/

def ClientMsg.toRequest : ClientMsg N E → Option (Request N E)
  | .request r => some r
  | .serverReference _ => none

/-- The client asks, the server looks up, or the client waits no more. -/
def Action.ofGet : Action N E → Prop
  | .client (.request (.get _)) => True
  | .contact (.get _) => True
  | .timeout => True
  | _ => False

variable [DecidableEq N]

/-- What a request leaves in the map, if the server handles it. -/
def Request.store (contacts : Contacts N E) : Request N E → Contacts N E
  | .put name email => Function.update contacts name (some email)
  | .get _ => contacts

/-- The most recent e-mail of every name. -/
def emails (requests : List (Request N E)) : Contacts N E :=
  requests.foldl Request.store ContactActor.new

/-- The lookups that were handled: each was answered, if its name was put before. -/
def Answered (s : State N E) : Prop :=
  Each (fun pre entry => ∀ name email, entry.1 = .request (.get name) →
    emails (pre.filterMap fun entry => entry.1.toRequest) name = some email →
    ∃ e, email = some e ∧ entry.2 = .printed e) s.handled

/-- Lookups change nothing, and are answered. -/
structure Survives (s : State N E) : Prop where
  unchanged : ∀ a t, Step s a t → a.ofGet → t.contacts = s.contacts ∧ t.client = s.client
  answered : Answered s
  finished : (∀ a t, ¬ Step s a t) → s.asking = none ∧ s.inbox = []

/-- A lookup that has an e-mail to find among the requests before it. -/
def Findable (pre : List (Request N E)) (request : Request N E) : Prop :=
  ∀ name, request = .get name → ∃ email, emails pre name = some (some email)

theorem emails_append_singleton (requests : List (Request N E)) (request : Request N E) :
    emails (requests ++ [request]) = request.store (emails requests) :=
  List.foldl_append ..

theorem supervised_get {contacts : Contacts N E} {name : N} {email : E}
    (h : contacts name = some (some email)) :
    ContactActor.supervised contacts (.get name) = (contacts, some email) := by
  simp [ContactActor.supervised, ContactActor.receive, ContactActor.onGetMessage, h]

theorem supervised_get_none (contacts : Contacts N E) {name : N}
    (h : ∀ email, contacts name ≠ some (some email)) :
    ContactActor.supervised contacts (.get name) = (ContactActor.new, none) := by
  have hjoin : (contacts name).join = none := by
    rcases hname : contacts name with _ | _ | email
    · rfl
    · rfl
    · exact absurd hname (h email)
  simp [ContactActor.supervised, ContactActor.receive, ContactActor.onGetMessage, hjoin]

/-! ## Lookups that find something -/

abbrev configured : Client := { server := some .contact }

/-- `done` is handled, `puts` is on its way to the server, and `todo` is still to come. -/
structure Inv (s : State N E) (done puts todo : List (Request N E)) : Prop where
  client : s.client = configured
  inbox : s.inbox = todo.map .request
  handled : s.handled.filterMap (fun entry => entry.1.toRequest) = done
  mailbox : s.mailbox = puts ++ (s.asking.map Request.get).toList
  onlyPuts : ∀ request ∈ puts, ∃ name email, request = .put name email
  contacts : puts.foldl Request.store s.contacts = emails done
  answered : Answered s

theorem Answered.handle {s t : State N E} (h : Answered s) (entry : ClientMsg N E × Outcome E)
    (hhandled : t.handled = s.handled ++ [entry])
    (hentry : ∀ name, entry.1 = .request (.get name) →
      ∃ e, emails (s.handled.filterMap fun entry => entry.1.toRequest) name = some (some e) ∧
        entry.2 = .printed e) : Answered t := by
  unfold Answered
  rw [hhandled, each_append_singleton]
  refine ⟨h, fun name email hname hemail => ?_⟩
  obtain ⟨e, hfound, hprinted⟩ := hentry name hname
  rw [hfound, Option.some.injEq] at hemail
  exact ⟨e, hemail.symm, hprinted⟩

theorem Inv.start (msgs : List (Request N E)) : Inv
    { client := configured
      inbox := msgs.map .request
      asking := none
      handled := []
      contacts := ContactActor.new
      mailbox := [] } [] [] msgs where
  client := rfl
  inbox := rfl
  handled := rfl
  mailbox := rfl
  onlyPuts := List.forall_mem_nil _
  contacts := rfl
  answered := Each.nil

theorem Inv.take_put {s : State N E} {done puts rest : List (Request N E)} {name : N}
    {email : Option E} (h : Inv s done puts (.put name email :: rest)) (hfree : s.asking = none)
    {t : State N E} (ht : t = s.take (.request (.put name email)) (rest.map .request)) :
    t.asking = none ∧ Inv t (done ++ [.put name email]) (puts ++ [.put name email]) rest := by
  have htake : t =
      { s with
        inbox := rest.map .request
        handled := s.handled ++ [(.request (.put name email), .done)]
        mailbox := s.mailbox ++ [.put name email] } := by
    simp [ht, State.take, ClientActor.receive, ClientActor.onPutMessage, h.client]
  subst htake
  refine ⟨hfree, h.client, rfl, ?_, ?_, ?_, ?_, ?_⟩
  · rw [List.filterMap_append, h.handled]
    rfl
  · rw [h.mailbox, hfree]
    simp
  · rw [List.forall_mem_append, List.forall_mem_singleton]
    exact ⟨h.onlyPuts, name, email, rfl⟩
  · rw [List.foldl_append, h.contacts, emails_append_singleton]
    rfl
  · exact h.answered.handle _ rfl (fun name hname => by cases hname)

theorem Inv.take_get {s : State N E} {done puts rest : List (Request N E)} {name : N}
    (h : Inv s done puts (.get name :: rest)) (hfree : s.asking = none) {t : State N E}
    (ht : t = s.take (.request (.get name)) (rest.map .request)) :
    t.asking = some name ∧ t.contacts = s.contacts ∧ Inv t done puts rest := by
  have htake : t =
      { s with
        inbox := rest.map .request
        asking := some name
        mailbox := s.mailbox ++ [.get name] } := by
    simp [ht, State.take, ClientActor.receive, ClientActor.onGetMessage, h.client]
  subst htake
  refine ⟨rfl, rfl, h.client, rfl, h.handled, ?_, h.onlyPuts, h.contacts, h.answered⟩
  rw [h.mailbox, hfree]
  simp

theorem Inv.contact_put {s : State N E} {done puts todo : List (Request N E)} {name : N}
    {email : Option E} (h : Inv s done (.put name email :: puts) todo) {t : State N E}
    (ht : t = s.serve (.put name email) (puts ++ (s.asking.map Request.get).toList)) :
    t.asking = s.asking ∧ Inv t done puts todo := by
  subst ht
  refine ⟨rfl, h.client, h.inbox, h.handled, rfl, ?_, h.contacts, h.answered⟩
  exact fun request hrequest => h.onlyPuts request (List.mem_cons_of_mem _ hrequest)

theorem Inv.contact_get {s : State N E} {done todo : List (Request N E)} {name : N}
    (h : Inv s done [] todo) (hasking : s.asking = some name) {email : E}
    (hemail : emails done name = some (some email)) {t : State N E}
    (ht : t = s.serve (.get name) []) :
    t.asking = none ∧ t.contacts = s.contacts ∧ Inv t (done ++ [.get name]) [] todo := by
  have hcontacts : s.contacts = emails done := h.contacts
  have hserve : t =
      { s with
        asking := none
        handled := s.handled ++ [(.request (.get name), .printed email)]
        mailbox := [] } := by
    have hsup : ContactActor.supervised s.contacts (.get name) = (s.contacts, some email) :=
      supervised_get (by rw [hcontacts, hemail])
    simp only [ht, State.serve, hsup, State.reply, hasking]
  subst hserve
  refine ⟨rfl, rfl, h.client, h.inbox, ?_, rfl, h.onlyPuts, ?_, ?_⟩
  · rw [List.filterMap_append, h.handled]
    rfl
  · rw [emails_append_singleton]
    exact hcontacts
  · refine h.answered.handle _ rfl fun name' hname => ?_
    obtain rfl : name = name' := by
      cases hname
      rfl
    rw [h.handled]
    exact ⟨email, hemail, rfl⟩

/-- How the messages of the run are spread over the state. -/
def Ok (msgs : List (Request N E)) (s : State N E) : Prop :=
  ∃ done puts todo, msgs = done ++ (s.asking.map Request.get).toList ++ todo ∧
    Inv s done puts todo

theorem Ok.step {msgs : List (Request N E)} (hfind : Each Findable msgs) {s t : State N E}
    {a : Action N E} (h : Ok msgs s) (hstep : Step s a t) :
    Ok msgs t ∧ (a.ofGet → t.contacts = s.contacts ∧ t.client = s.client) := by
  obtain ⟨done, puts, todo, hmsgs, hinv⟩ := h
  cases hstep with
  | client msg rest hfree hm =>
    obtain ⟨request, todo, rfl, rfl, rfl⟩ : ∃ request todo', todo = request :: todo' ∧
        msg = .request request ∧ rest = todo'.map .request := by
      rw [hinv.inbox, List.map_eq_cons_iff] at hm
      obtain ⟨request, todo', rfl, rfl, rfl⟩ := hm
      exact ⟨request, todo', rfl, rfl, rfl⟩
    rw [hfree] at hmsgs
    cases request with
    | put name email =>
      obtain ⟨hasking, hnext⟩ := hinv.take_put hfree rfl
      refine ⟨⟨_, _, _, ?_, hnext⟩, False.elim⟩
      rw [hasking, hmsgs]
      simp
    | get name =>
      obtain ⟨hasking, hcontacts, hnext⟩ := hinv.take_get hfree rfl
      refine ⟨⟨done, puts, todo, ?_, hnext⟩, fun _ => ⟨hcontacts, ?_⟩⟩
      · rw [hasking, hmsgs]
        simp
      · rw [hnext.client, hinv.client]
  | contact request rest hm =>
    rw [hinv.mailbox] at hm
    cases puts with
    | cons put puts =>
      obtain ⟨name, email, rfl⟩ := hinv.onlyPuts put List.mem_cons_self
      obtain ⟨rfl, rfl⟩ := List.cons.inj hm
      exact ⟨⟨done, puts, todo, hmsgs, (hinv.contact_put rfl).2⟩, False.elim⟩
    | nil =>
      obtain ⟨name, hasking⟩ : ∃ name, s.asking = some name := by
        cases hasking : s.asking with
        | none => simp [hasking] at hm
        | some name => exact ⟨name, rfl⟩
      rw [hasking] at hm hmsgs
      obtain ⟨rfl, rfl⟩ := List.cons.inj hm
      obtain ⟨email, hemail⟩ := hfind done (.get name) todo (by simp [hmsgs]) name rfl
      obtain ⟨hdone, hcontacts, hnext⟩ := hinv.contact_get hasking hemail rfl
      refine ⟨⟨done ++ [.get name], [], todo, ?_, hnext⟩, fun _ => ⟨hcontacts, ?_⟩⟩
      · rw [hdone, hmsgs]
        simp
      · rw [hnext.client, hinv.client]
  | timeout name hasking hm =>
    rw [hinv.mailbox, hasking] at hm
    exact absurd (List.mem_append_right _ List.mem_cons_self) hm

theorem ok_of_reachable {msgs : List (Request N E)} (hfind : Each Findable msgs) {s : State N E}
    (h : (system msgs).Reachable s) : Ok msgs s := by
  refine h.invariant (Ok msgs) ?_ ?_
  · rintro s rfl
    exact ⟨[], [], msgs, rfl, .start msgs⟩
  · intro s a t hs hstep
    exact (hs.step hfind hstep).1

theorem stuck_finished {s : State N E} (h : ∀ a t, ¬ Step s a t) :
    s.asking = none ∧ s.inbox = [] := by
  cases hasking : s.asking with
  | some name =>
    rcases Classical.em (.get name ∈ s.mailbox) with hm | hm
    · obtain ⟨request, rest, hcons⟩ := List.exists_cons_of_ne_nil (List.ne_nil_of_mem hm)
      exact absurd (.contact request rest hcons) (h _ _)
    · exact absurd (.timeout name hasking hm) (h _ _)
  | none =>
    refine ⟨rfl, ?_⟩
    cases hinbox : s.inbox with
    | nil => rfl
    | cons msg rest => exact absurd (.client msg rest hasking hinbox) (h _ _)

/-! ## The first lookup that finds nothing -/

theorem exists_run (pre post : List (Request N E)) (hfind : Each Findable pre) :
    ∃ s, (system (pre ++ post)).Reachable s ∧ s.asking = none ∧ Inv s pre [] post := by
  induction pre using List.reverseRecOn generalizing post with
  | nil => exact ⟨_, .start rfl, rfl, .start post⟩
  | append_singleton pre request ih =>
    obtain ⟨hpre, hrequest⟩ := each_append_singleton.mp hfind
    obtain ⟨s, hs, hfree, hinv⟩ := ih (request :: post) hpre
    rw [List.append_assoc]
    have htake := hs.step (.client (.request request) (post.map .request) hfree hinv.inbox)
    cases request with
    | put name email =>
      obtain ⟨hasking, hnext⟩ := hinv.take_put hfree rfl
      have hserve := htake.step (.contact _ _ hnext.mailbox)
      obtain ⟨hasking', hserved⟩ := hnext.contact_put rfl
      exact ⟨_, hserve, hasking'.trans hasking, hserved⟩
    | get name =>
      obtain ⟨hasking, _, hnext⟩ := hinv.take_get hfree rfl
      obtain ⟨email, hemail⟩ := hrequest name rfl
      have hmailbox := hnext.mailbox
      rw [hasking] at hmailbox
      have hserve := htake.step (.contact _ _ hmailbox)
      obtain ⟨hasking', _, hserved⟩ := hnext.contact_get hasking hemail rfl
      exact ⟨_, hserve, hasking', hserved⟩

theorem lookup_lost {pre : List (Request N E)} (post : List (Request N E)) (name : N)
    (hfind : Each Findable pre)
    (hname : ∀ email, emails pre name ≠ some (some email)) :
    ∃ s t, (system (pre ++ .get name :: post)).Reachable s ∧ Step s .timeout t ∧
      t.client ≠ s.client := by
  obtain ⟨s, hs, hfree, hinv⟩ := exists_run pre (.get name :: post) hfind
  have htake := hs.step (.client (.request (.get name)) (post.map .request) hfree hinv.inbox)
  obtain ⟨hasking, hcontacts, hnext⟩ := hinv.take_get hfree rfl
  have hmailbox := hnext.mailbox
  rw [hasking] at hmailbox
  have hserve := htake.step (.contact _ _ hmailbox)
  have hkept : s.contacts = emails pre := hinv.contacts
  have hsup := supervised_get_none (s.take _ _).contacts (by rwa [hcontacts, hkept])
  have hserved : ∀ t, t = (s.take (.request (.get name)) (post.map .request)).serve (.get name) [] →
      t.asking = some name ∧ t.mailbox = [] ∧ t.client = configured := by
    rintro t rfl
    simp only [State.serve, hsup, State.reply]
    exact ⟨hasking, trivial, hnext.client⟩
  obtain ⟨hwaits, hempty, hclient⟩ := hserved _ rfl
  refine ⟨_, _, hserve, .timeout name hwaits (by rw [hempty]; exact List.not_mem_nil), ?_⟩
  rw [hclient]
  exact nofun

/-- The service survives the lookups, and answers those that it can, exactly if all of them
find an e-mail. -/
theorem survives_iff (msgs : List (Request N E)) :
    (∀ s, (system msgs).Reachable s → Survives s) ↔ Each Findable msgs := by
  constructor
  · intro hsurvives
    by_contra hfind
    obtain ⟨pre, request, post, rfl, hpre, hnot⟩ := exists_first_not hfind
    unfold Findable at hnot
    push Not at hnot
    obtain ⟨name, rfl, hname⟩ := hnot
    obtain ⟨s, t, hs, hstep, hlost⟩ := lookup_lost post name hpre hname
    exact hlost ((hsurvives s hs).unchanged _ _ hstep trivial).2
  · intro hfind s hs
    have hok := ok_of_reachable hfind hs
    refine ⟨fun a t hstep => (hok.step hfind hstep).2, ?_, stuck_finished⟩
    obtain ⟨_, _, _, _, hinv⟩ := hok
    exact hinv.answered

theorem absent_name_not_survived : ¬ ∀ s : State Nat Nat,
    (system [.put 0 (some 7), .get 1, .get 0]).Reachable s → Survives s := by
  intro hsurvives
  have hpre : Each Findable [(.put 0 (some 7) : Request Nat Nat)] :=
    each_append_singleton.mpr ⟨Each.nil, fun name hname => by cases hname⟩
  obtain ⟨s, t, hs, hstep, hlost⟩ := lookup_lost [.get 0] 1 hpre
    (by simp [emails, Request.store, ContactActor.new])
  exact hlost ((hsurvives s hs).unchanged _ _ hstep trivial).2

end Nsds.Lab3
