import Mathlib.Data.List.Induction
import Nsds.NodeRed.Bot.Code

/-!
# Request counters

What `parse request` recognises, and that no recognised request is missing in the lines and the
counter together.
-/

namespace Nsds.Bot

open JsString

/-! ## The four requests -/

/-- The four beginnings of a request, and what they ask for. -/
structure Pattern where
  text : JsString
  type : RequestType
  day : Day
deriving DecidableEq, Repr

def patterns : List Pattern :=
  [⟨req1, .forecast, .tomorrow⟩, ⟨req2, .forecast, .inTwoDays⟩, ⟨reqWind1, .wind, .tomorrow⟩,
    ⟨reqWind2, .wind, .inTwoDays⟩]

theorem patterns_exclusive {content : JsString} {p q : Pattern} (hp : p ∈ patterns)
    (hq : q ∈ patterns) (hpc : p.text <+: content) (hqc : q.text <+: content) : p = q := by
  have htexts : ∀ p ∈ patterns, ∀ q ∈ patterns, p.text = q.text → p = q := by decide
  apply htexts p hp q hq
  exact eq_of_prefixes (patterns.map Pattern.text) (by decide) (List.mem_map_of_mem hp)
    (List.mem_map_of_mem hq) hpc hqc

theorem classify_eq (content : JsString) :
    classify content = (patterns.find? fun p => p.text <+: content).map fun p =>
      (p.type, p.day, content.drop p.text.length) := by
  unfold classify patterns
  simp only [List.find?_cons]
  split
  next h => simp [h]
  next h1 =>
    split
    next h => simp [h1, h]
    next h2 =>
      split
      next h => simp [h1, h2, h]
      next h3 =>
        split
        next h => simp [h1, h2, h3, h]
        next h4 => simp [h1, h2, h3, h4]

theorem classify_eq_some {content : JsString} {p : Pattern} (hp : p ∈ patterns)
    (hpc : p.text <+: content) :
    classify content = some (p.type, p.day, content.drop p.text.length) := by
  rw [classify_eq]
  rcases hfind : patterns.find? fun p => p.text <+: content with _ | q
  · have := List.find?_eq_none.mp hfind p hp
    simp [hpc] at this
  · have hq := List.find?_some hfind
    simp only [decide_eq_true_eq] at hq
    rw [hfind, patterns_exclusive (List.mem_of_find?_eq_some hfind) hp hq hpc]
    rfl

theorem classify_eq_none {content : JsString} (h : ∀ p ∈ patterns, ¬ p.text <+: content) :
    classify content = none := by
  rw [classify_eq, List.find?_eq_none.mpr]
  · rfl
  · simpa using h

/-! ## The two outputs -/

def questionMark : UInt16 := '?'.toNat.toUInt16

/-- A city, and what the text has in its place. -/
def Trimmed (rest city : JsString) : Prop :=
  rest = city ++ [questionMark] ∨ city = rest ∧ rest.getLast? ≠ some questionMark

/-- What is to be sent for a message: to the first output if it starts with one of the four
requests, with what it asks for, and otherwise to the second one. -/
structure Parsed (msg : Msg) (request error : Option Msg) : Prop where
  exactlyOne : request.isSome ↔ error = none
  recognised : request.isSome ↔ ∃ p ∈ patterns, p.text <+: msg.payload.content
  contents : ∀ p ∈ patterns, ∀ rest, msg.payload.content = p.text ++ rest →
    ∃ message city, request = some message ∧ Trimmed rest city ∧
      message.requestInfo = some { day := p.day, type := p.type } ∧
      message.location = some { country := js "IT", city := some city }

theorem withoutQuestionMark_trimmed (rest : JsString) :
    Trimmed rest (withoutQuestionMark rest) := by
  unfold withoutQuestionMark
  split
  next h =>
    obtain ⟨city, rfl⟩ := List.getLast?_eq_some_iff.mp h
    exact .inl (by rw [List.dropLast_concat]; rfl)
  next h => exact .inr ⟨rfl, h⟩

theorem parseRequest_some {msg : Msg} {p : Pattern} (hp : p ∈ patterns)
    (hpc : p.text <+: msg.payload.content) (counter : Counter) :
    ∃ message, parseRequest counter msg = (counter.increment p.type, some message, none) ∧
      message.requestInfo = some { day := p.day, type := p.type } ∧
      message.location = some {
        country := js "IT"
        city := some (withoutQuestionMark (msg.payload.content.drop p.text.length)) } := by
  unfold parseRequest
  rw [classify_eq_some hp hpc]
  exact ⟨_, rfl, rfl, rfl⟩

theorem parseRequest_none {msg : Msg} (h : ∀ p ∈ patterns, ¬ p.text <+: msg.payload.content)
    (counter : Counter) : ∃ message, parseRequest counter msg = (counter, none, some message) := by
  unfold parseRequest
  rw [classify_eq_none h]
  exact ⟨_, rfl⟩

theorem parseRequest_parsed (counter : Counter) (msg : Msg) :
    Parsed msg (parseRequest counter msg).2.1 (parseRequest counter msg).2.2 := by
  rcases Classical.em (∃ p ∈ patterns, p.text <+: msg.payload.content) with h | h
  · obtain ⟨p, hp, hpc⟩ := h
    obtain ⟨message, heq, hinfo, hlocation⟩ := parseRequest_some hp hpc counter
    rw [heq]
    refine ⟨by simp, by simpa using ⟨p, hp, hpc⟩, ?_⟩
    intro q hq rest hrest
    obtain rfl := patterns_exclusive hq hp (hrest ▸ List.prefix_append _ _) hpc
    rw [hrest, List.drop_left] at hlocation
    exact ⟨message, _, rfl, withoutQuestionMark_trimmed rest, hinfo, hlocation⟩
  · have hnone : ∀ p ∈ patterns, ¬ p.text <+: msg.payload.content :=
      fun p hp hpc => h ⟨p, hp, hpc⟩
    obtain ⟨message, heq⟩ := parseRequest_none hnone counter
    rw [heq]
    refine ⟨by simp, by simpa using hnone, ?_⟩
    intro p hp rest hrest
    exact absurd (hrest ▸ List.prefix_append _ _) (hnone p hp)

/-! ## The lines -/

theorem Line.text_eq (line : Line) : line.text =
    (line.payload ++ js " -> forecast:" ++ 32 :: decimal line.forecast) ++ js ", wind:" ++
      32 :: decimal line.wind := by
  have hforecast : js " -> forecast: " = js " -> forecast:" ++ [32] := by decide
  have hwind : js ", wind: " = js ", wind:" ++ [32] := by decide
  rw [Line.text, hforecast, hwind]
  simp only [List.append_assoc, List.singleton_append]

theorem Line.counts_of_text {line line' : Line} (h : line.text = line'.text) :
    line.forecast = line'.forecast ∧ line.wind = line'.wind := by
  have hblank : ¬ IsDigit 32 := by decide
  rw [Line.text_eq, Line.text_eq] at h
  obtain ⟨hrest, hwind⟩ := append_decimal_inj hblank hblank h
  obtain ⟨-, hforecast⟩ := append_decimal_inj hblank hblank (List.append_cancel_right hrest)
  exact ⟨hforecast, hwind⟩

/-! ## Requests and ticks -/

/-- A message to the bot, or the timer of the file. -/
inductive Event where
  | text (msg : Msg)
  | tick (payload : JsString)
deriving DecidableEq, Repr

def Event.msg : Event → Option Msg
  | .text msg => some msg
  | .tick _ => none

/-- `handled` has the messages that came, and what left `parse request` for each. -/
structure State where
  counter : Counter
  handled : List (Msg × Option Msg × Option Msg)
  lines : List Line

def State.next (s : State) : Event → State
  | .text msg =>
    let (counter, outputs) := parseRequest s.counter msg
    { s with counter := counter, handled := s.handled ++ [(msg, outputs)] }
  | .tick payload =>
    let (counter, line) := saveIntoFile s.counter payload
    { s with counter := counter, lines := s.lines ++ [line] }

def run (events : List Event) : State :=
  events.foldl State.next { counter := .zero, handled := [], lines := [] }

def Line.get (type : RequestType) (line : Line) : Nat :=
  match type with
  | .forecast => line.forecast
  | .wind => line.wind

/-- The message left by the first output, with this type. -/
def recognisedAs (type : RequestType) (entry : Msg × Option Msg × Option Msg) : Bool :=
  (entry.2.1.bind Msg.requestInfo).map RequestInfo.type = some type

/-- What was counted is in the file or still in the counters. -/
structure State.Inv (s : State) : Prop where
  parsed : ∀ entry ∈ s.handled, Parsed entry.1 entry.2.1 entry.2.2
  counted : ∀ type, (s.lines.map (Line.get type)).sum + s.counter.get type =
    s.handled.countP (recognisedAs type)

theorem get_increment (counter : Counter) (type asked : RequestType) :
    (counter.increment asked).get type = counter.get type + if asked = type then 1 else 0 := by
  cases type <;> cases asked <;> rfl

theorem State.Inv.next {s : State} (h : s.Inv) (event : Event) : (s.next event).Inv := by
  cases event with
  | text msg =>
    constructor
    · intro entry hentry
      rcases List.mem_append.mp hentry with hentry | hentry
      · exact h.parsed entry hentry
      · rw [List.mem_singleton.mp hentry]
        exact parseRequest_parsed s.counter msg
    · intro type
      have hcounted := h.counted type
      simp only [State.next, List.countP_append, List.countP_singleton]
      rcases Classical.em (∃ p ∈ patterns, p.text <+: msg.payload.content) with hsome | hnone
      · obtain ⟨p, hp, hpc⟩ := hsome
        obtain ⟨message, heq, hinfo, -⟩ := parseRequest_some hp hpc s.counter
        have hthis : recognisedAs type (msg, some message, none) = decide (p.type = type) := by
          simp [recognisedAs, hinfo]
        rw [heq, hthis, get_increment]
        simp only [decide_eq_true_eq]
        omega
      · obtain ⟨message, heq⟩ := parseRequest_none (fun p hp hpc => hnone ⟨p, hp, hpc⟩) s.counter
        rw [heq]
        simpa [recognisedAs] using hcounted
  | tick payload =>
    refine ⟨h.parsed, fun type => ?_⟩
    have hcounted := h.counted type
    have hline : (saveIntoFile s.counter payload).2.get type = s.counter.get type := by
      cases type <;> rfl
    have hzero : Counter.zero.get type = 0 := by cases type <;> rfl
    simp only [State.next, List.map_append, List.sum_append, List.map_singleton,
      List.sum_singleton, hline]
    change _ + Counter.zero.get type = _
    omega

theorem handled_next (s : State) (event : Event) :
    (s.next event).handled.map Prod.fst = s.handled.map Prod.fst ++ event.msg.toList := by
  cases event with
  | text msg => exact List.map_append
  | tick payload => exact (List.append_nil _).symm

theorem run_append_singleton (events : List Event) (event : Event) :
    run (events ++ [event]) = (run events).next event := List.foldl_append

theorem run_inv (events : List Event) : (run events).Inv := by
  apply List.foldlRecOn
  · exact ⟨by simp, fun type => by cases type <;> rfl⟩
  · intro s hs event _
    exact hs.next event

theorem handled_run (events : List Event) :
    (run events).handled.map Prod.fst = events.filterMap Event.msg := by
  induction events using List.reverseRecOn with
  | nil => rfl
  | append_singleton events event ih =>
    rw [run_append_singleton, handled_next, ih, List.filterMap_append]
    cases event <;> rfl

/-- Of all messages that came, those recognised as a type are in the lines, whose texts tell the
counts, or still in the counter. Each left by one output, as a request exactly if it starts with
one of the four. -/
theorem request_counters (events : List Event) :
    (∀ type, ((run events).lines.map (Line.get type)).sum + (run events).counter.get type =
      (run events).handled.countP (recognisedAs type)) ∧
    (∀ line line' : Line, line.text = line'.text →
      line.forecast = line'.forecast ∧ line.wind = line'.wind) ∧
    (run events).handled.map Prod.fst = events.filterMap Event.msg ∧
    ∀ entry ∈ (run events).handled, Parsed entry.1 entry.2.1 entry.2.2 :=
  ⟨(run_inv events).counted, fun _ _ => Line.counts_of_text, handled_run events,
    (run_inv events).parsed⟩

end Nsds.Bot
