/-!
# Actors with a stash

An actor takes the first message of its mailbox, and may put it aside instead of
handling it. `unstashAll` puts everything that was put aside in front of the mailbox
again. If nothing is handled while something is put aside, the order is kept.
-/

namespace Stash

variable {β μ ω ν : Type}

/-- What a handler does with a message, and the behavior for the next one. -/
structure Reaction (β ω : Type) where
  behavior : β
  out : List ω
  stash : Bool
  unstashAll : Bool

/-- An actor, with all that has arrived at it and all that it has sent so far. -/
structure Actor (β μ ω : Type) where
  behavior : β
  mailbox : List μ
  stashed : List μ
  arrived : List μ
  sent : List ω

/-- Nothing has arrived. -/
def Actor.new (behavior : β) : Actor β μ ω where
  behavior := behavior
  mailbox := []
  stashed := []
  arrived := []
  sent := []

/-- A message comes into the mailbox. -/
def Actor.arrive (a : Actor β μ ω) (m : μ) : Actor β μ ω :=
  { a with mailbox := a.mailbox ++ [m], arrived := a.arrived ++ [m] }

/-- The actor after the message `m`, with `rest` behind it in the mailbox. -/
def Actor.react (a : Actor β μ ω) (m : μ) (rest : List μ) (r : Reaction β ω) : Actor β μ ω :=
  let stashed := if r.stash then a.stashed ++ [m] else a.stashed
  { a with
    behavior := r.behavior
    mailbox := if r.unstashAll then stashed ++ rest else rest
    stashed := if r.unstashAll then [] else stashed
    sent := a.sent ++ r.out }

/-- `due m` is what is to be sent for `m`, and `seen` finds that among all that is sent.
It is sent in an open behavior, and otherwise the message is put aside. -/
structure Lawful (receive : β → μ → Reaction β ω) (isOpen : β → Prop) (seen : ω → Option ν)
    (due : μ → Option ν) : Prop where
  stash : ∀ b m, (receive b m).stash = true → (receive b m).out.filterMap seen = []
  handle : ∀ b m, (receive b m).stash = false →
    (receive b m).out.filterMap seen = (due m).toList ∧ (due m ≠ none → isOpen b)
  opens : ∀ b m, isOpen (receive b m).behavior →
    (receive b m).unstashAll = true ∨ isOpen b ∧ (receive b m).stash = false

/-- What is due is sent, put aside, or in the mailbox, in this order. -/
structure InOrder (isOpen : β → Prop) (seen : ω → Option ν) (due : μ → Option ν)
    (a : Actor β μ ω) : Prop where
  order : a.sent.filterMap seen ++ (a.stashed ++ a.mailbox).filterMap due =
    a.arrived.filterMap due
  opened : isOpen a.behavior → a.stashed = []

variable {receive : β → μ → Reaction β ω} {isOpen : β → Prop} {seen : ω → Option ν}
  {due : μ → Option ν} {a : Actor β μ ω}

theorem InOrder.new (b : β) : InOrder isOpen seen due (Actor.new b) where
  order := rfl
  opened _ := rfl

theorem InOrder.arrive (h : InOrder isOpen seen due a) (m : μ) :
    InOrder isOpen seen due (a.arrive m) where
  order := by
    have horder := h.order
    simp only [Actor.arrive, List.filterMap_append] at horder ⊢
    rw [← horder]
    simp only [List.append_assoc]
  opened := h.opened

theorem InOrder.react (law : Lawful receive isOpen seen due) (h : InOrder isOpen seen due a)
    {m : μ} {rest : List μ} (hm : a.mailbox = m :: rest) :
    InOrder isOpen seen due (a.react m rest (receive a.behavior m)) := by
  constructor
  case order =>
    have hqueued : ∀ stashed : List μ,
        (if (receive a.behavior m).unstashAll then [] else stashed) ++
          (if (receive a.behavior m).unstashAll then stashed ++ rest else rest) =
            stashed ++ rest := by
      intro stashed
      split <;> rfl
    have horder := h.order
    rw [hm, List.filterMap_append, List.filterMap_cons] at horder
    unfold Actor.react
    simp only [hqueued]
    rw [← horder, List.filterMap_append, List.filterMap_append]
    cases hstash : (receive a.behavior m).stash with
    | true =>
      rw [law.stash _ m hstash, if_pos rfl, List.filterMap_append, List.filterMap_cons]
      cases due m <;> simp
    | false =>
      obtain ⟨hout, hopen⟩ := law.handle _ m hstash
      rw [hout]
      cases hdue : due m with
      | none => simp
      | some n =>
        -- Nothing is put aside that `m` could overtake.
        have hnil := h.opened (hopen (by simp [hdue]))
        simp [hnil]
  case opened =>
    intro hopen
    unfold Actor.react at hopen ⊢
    rcases law.opens _ m hopen with hall | ⟨hopened, hstash⟩
    · simp [hall]
    · simp [hstash, h.opened hopened]

/-! ## What is sent -/

theorem InOrder.sent_le (h : InOrder isOpen seen due a) :
    a.sent.filterMap seen <+: a.arrived.filterMap due :=
  ⟨_, h.order⟩

theorem InOrder.sent_all (h : InOrder isOpen seen due a) (hopen : isOpen a.behavior)
    (hmailbox : a.mailbox = []) : a.sent.filterMap seen = a.arrived.filterMap due := by
  have horder := h.order
  rwa [h.opened hopen, hmailbox, List.append_nil, List.filterMap_nil, List.append_nil] at horder

/-! ## A message that is never put aside -/

/-- `m` has arrived after `pre`, and `out` is sent for it in any behavior: it waits behind what is
left of `pre`, or what was sent before `out` is due to `pre`. -/
inductive Placed (isOpen : β → Prop) (seen : ω → Option ν) (due : μ → Option ν) (m : μ)
    (out : List ω) (pre : List μ) (a : Actor β μ ω) : Prop where
  | waiting (before after : List μ) : a.mailbox = before ++ m :: after →
      InOrder isOpen seen due { a with mailbox := before, arrived := pre } →
      Placed isOpen seen due m out pre a
  | handled (before after : List ω) : a.sent = before ++ (out ++ after) →
      before.filterMap seen <+: pre.filterMap due → Placed isOpen seen due m out pre a

variable {m : μ} {out : List ω} {pre : List μ}

theorem Placed.arrived (h : InOrder isOpen seen due a) :
    Placed isOpen seen due m out a.arrived (a.arrive m) :=
  .waiting a.mailbox [] rfl h

theorem Placed.arrive (h : Placed isOpen seen due m out pre a) (m' : μ) :
    Placed isOpen seen due m out pre (a.arrive m') := by
  cases h with
  | waiting before after hmailbox horder =>
    exact .waiting before (after ++ [m']) (by simp [Actor.arrive, hmailbox]) horder
  | handled before after hsent hle => exact .handled before after hsent hle

theorem Placed.react (law : Lawful receive isOpen seen due)
    (hout : ∀ b, receive b m = ⟨b, out, false, false⟩)
    (h : Placed isOpen seen due m out pre a) {m' : μ} {rest : List μ}
    (hm : a.mailbox = m' :: rest) :
    Placed isOpen seen due m out pre (a.react m' rest (receive a.behavior m')) := by
  cases h with
  | waiting before after hmailbox horder =>
    rw [hmailbox] at hm
    cases before with
    | nil =>
      obtain ⟨rfl, rfl⟩ := List.cons.inj hm
      refine .handled a.sent [] (by simp [Actor.react, hout]) ?_
      exact ⟨_, by simpa using horder.order⟩
    | cons m'' before =>
      obtain ⟨rfl, rfl⟩ := List.cons.inj hm
      have hreact := horder.react law rfl
      refine .waiting _ after ?_ hreact
      simp only [Actor.react]
      split <;> simp
  | handled before after hsent hle =>
    exact .handled before (after ++ (receive a.behavior m').out) (by simp [Actor.react, hsent]) hle

end Stash
