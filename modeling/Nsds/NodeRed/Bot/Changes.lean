import Nsds.Lib.History
import Nsds.NodeRed.Bot.Code

/-!
# Reported changes

`parse response` keeps the most recent answer to every request in one table. Its keys are not
separated, but no two requests have the same one.
-/

namespace Nsds.Bot

open History JsString

/-! ## The keys -/

theorem typeText_injective {type type' : RequestType} (h : type.text = type'.text) :
    type = type' := by
  revert h
  cases type <;> cases type' <;> decide

theorem dayText_injective {day day' : Day} (h : day.text = day'.text) : day = day' := by
  revert h
  cases day <;> cases day' <;> decide

theorem typeText_mem (type : RequestType) : type.text ∈ [js "forecast", js "wind"] := by
  cases type <;> decide

theorem dayText_mem (day : Day) : day.text ∈ [js "tomorrow", js "in two days"] := by
  cases day <;> decide

theorem index_injective {type type' : RequestType} {day day' : Day} {city city' : JsString}
    (h : index type day city = index type' day' city') :
    type = type' ∧ day = day' ∧ city = city' := by
  unfold index at h
  rw [List.append_assoc, List.append_assoc] at h
  obtain rfl := typeText_injective (eq_of_prefixes [js "forecast", js "wind"] (by decide)
    (typeText_mem type) (typeText_mem type') (h ▸ List.prefix_append _ _) (List.prefix_append _ _))
  have hrest := List.append_cancel_left h
  obtain rfl := dayText_injective (eq_of_prefixes [js "tomorrow", js "in two days"] (by decide)
    (dayText_mem day) (dayText_mem day') (hrest ▸ List.prefix_append _ _) (List.prefix_append _ _))
  exact ⟨rfl, rfl, List.append_cancel_left hrest⟩

/-! ## The two sentences -/

def sameSentence : JsString := js "It is the same as the last time I was asked!"
def changedSentence : JsString := js "It changed since the last time I was asked!"

theorem not_suffix_append {sentence own : JsString} (h : ¬ sentence <:+ own)
    (h' : ¬ own <:+ sentence) (text : JsString) : ¬ sentence <:+ text ++ own := by
  intro hsuffix
  rcases List.suffix_or_suffix_of_suffix hsuffix (List.suffix_append text own) with hs | hs
  · exact h hs
  · exact h' hs

theorem same_suffix (text : JsString) :
    sameSentence <:+ text ++ same ∧ ¬ changedSentence <:+ text ++ same := by
  constructor
  · have h : sameSentence <:+ same := by decide
    exact h.trans (List.suffix_append text same)
  · exact not_suffix_append (by decide) (by decide) text

theorem changed_suffix (text : JsString) :
    changedSentence <:+ text ++ changed ∧ ¬ sameSentence <:+ text ++ changed := by
  constructor
  · have h : changedSentence <:+ changed := by decide
    exact h.trans (List.suffix_append text changed)
  · exact not_suffix_append (by decide) (by decide) text

/-! ## The answers -/

/-- What a request asks for. -/
structure Request where
  type : RequestType
  day : Day
  city : JsString
deriving DecidableEq, Repr

/-- Under what `parseResponse` keeps the answer. -/
def Request.key (request : Request) : JsString := index request.type request.day request.city

theorem key_injective {request request' : Request} (h : request.key = request'.key) :
    request = request' := by
  obtain ⟨type, day, city⟩ := request
  obtain ⟨type', day', city'⟩ := request'
  obtain ⟨rfl, rfl, rfl⟩ := index_injective h
  rfl

/-- The text of an answer, and what was sent for it. -/
structure Answer where
  request : Request
  text : JsString
  sent : JsString
deriving DecidableEq, Repr

structure Answers where
  responses : Responses
  answered : List Answer

variable {N : Type} {numberText : N → JsString}

def Response.request (msg : Response N) : Request where
  type := msg.requestInfo.type
  day := msg.requestInfo.day
  city := msg.city

/-- A response that cannot be answered leaves all as it is. -/
def Answers.next (numberText : N → JsString) (s : Answers) (msg : Response N) : Answers :=
  match weatherText numberText msg, parseResponse numberText s.responses msg with
  | some text, some (responses, sent) => {
    responses := responses
    answered := s.answered ++ [{ request := msg.request, text := text, sent := sent }] }
  | _, _ => s

def answers (numberText : N → JsString) (msgs : List (Response N)) : Answers :=
  msgs.foldl (Answers.next numberText) { responses := fun _ => none, answered := [] }

def Answer.About (request : Request) (answer : Answer) : Prop := answer.request = request

/-- The last answer to the same request, if there was one, was the same, or was another one. -/
def Reported (earlier : List Answer) (answer : Answer) : Prop :=
  (sameSentence <:+ answer.sent ↔
    ∃ last, Last (Answer.About answer.request) earlier last ∧ last.text = answer.text) ∧
  ((∃ before ∈ earlier, before.request = answer.request) →
    (changedSentence <:+ answer.sent ↔
      ∃ last, Last (Answer.About answer.request) earlier last ∧ last.text ≠ answer.text))

/-- The table has the text of the most recent answer to each request. -/
structure Answers.Inv (s : Answers) : Prop where
  table : ∀ request text, s.responses request.key = some text ↔
    ∃ last, Last (Answer.About request) s.answered last ∧ last.text = text
  reported : Each Reported s.answered

theorem Answers.Inv.append {s : Answers} (h : s.Inv) {answer : Answer} {responses : Responses}
    (hown : responses answer.request.key = some answer.text)
    (hothers : ∀ key, key ≠ answer.request.key → responses key = s.responses key)
    (hreported : Reported s.answered answer) :
    Answers.Inv { responses := responses, answered := s.answered ++ [answer] } := by
  refine ⟨fun request text => ?_, each_append_singleton.mpr ⟨h.reported, hreported⟩⟩
  simp only [last_append_singleton]
  rcases eq_or_ne answer.request request with rfl | hne
  · rw [hown, Option.some.injEq]
    constructor
    · intro htext
      exact ⟨answer, .inl ⟨rfl, rfl⟩, htext⟩
    · rintro ⟨last, ⟨-, rfl⟩ | ⟨hother, -⟩, htext⟩
      · exact htext
      · exact absurd rfl hother
  · rw [hothers request.key fun hkey => hne (key_injective hkey).symm, h.table request text]
    constructor
    · rintro ⟨last, hlast, htext⟩
      exact ⟨last, .inr ⟨hne, hlast⟩, htext⟩
    · rintro ⟨last, ⟨hown', -⟩ | ⟨-, hlast⟩, htext⟩
      · exact absurd hown' hne
      · exact ⟨last, hlast, htext⟩

theorem Answers.Inv.last_text {s : Answers} (h : s.Inv) {request : Request} {text : JsString}
    (htext : s.responses request.key = some text) {last : Answer}
    (hlast : Last (Answer.About request) s.answered last) : last.text = text := by
  have hother := (h.table request last.text).mpr ⟨last, hlast, rfl⟩
  rw [htext] at hother
  exact (Option.some.inj hother).symm

theorem reported_same {s : Answers} (h : s.Inv) {request : Request} {text : JsString}
    (htext : s.responses request.key = some text) :
    Reported s.answered { request := request, text := text, sent := text ++ same } := by
  obtain ⟨hsame, hchanged⟩ := same_suffix text
  refine ⟨iff_of_true hsame ((h.table request text).mp htext), fun _ => iff_of_false hchanged ?_⟩
  rintro ⟨last, hlast, hne⟩
  exact hne (h.last_text htext hlast)

theorem reported_changed {s : Answers} (h : s.Inv) {request : Request} {text : JsString}
    (htext : s.responses request.key ≠ some text) :
    Reported s.answered { request := request, text := text, sent := text ++ changed } := by
  obtain ⟨hchanged, hsame⟩ := changed_suffix text
  refine ⟨iff_of_false hsame fun hlast => htext ((h.table request text).mpr hlast), ?_⟩
  rintro ⟨before, hbefore, hrequest⟩
  have hasked : ∃ last, Last (Answer.About request) s.answered last :=
    exists_last.mpr ⟨before, hbefore, hrequest⟩
  obtain ⟨last, hlast⟩ := hasked
  refine iff_of_true hchanged ⟨last, hlast, fun heq => ?_⟩
  exact htext ((h.table request text).mpr ⟨last, hlast, heq⟩)

theorem next_none {msg : Response N} (h : weatherText numberText msg = none) (s : Answers) :
    s.next numberText msg = s := by
  rw [Answers.next, h]

theorem next_same {msg : Response N} {text : JsString} (h : weatherText numberText msg = some text)
    {s : Answers} (hsame : s.responses msg.request.key = some text) :
    s.next numberText msg = { s with
      answered := s.answered ++
        [{ request := msg.request, text := text, sent := text ++ same }] } := by
  have hparse : parseResponse numberText s.responses msg = some (s.responses, text ++ same) := by
    rw [parseResponse, h]
    exact congrArg some (if_pos hsame)
  rw [Answers.next, h, hparse]

theorem next_changed {msg : Response N} {text : JsString}
    (h : weatherText numberText msg = some text) {s : Answers}
    (hchanged : s.responses msg.request.key ≠ some text) :
    s.next numberText msg = {
      responses := Function.update s.responses msg.request.key (some text)
      answered := s.answered ++
        [{ request := msg.request, text := text, sent := text ++ changed }] } := by
  have hparse : parseResponse numberText s.responses msg =
      some (Function.update s.responses msg.request.key (some text), text ++ changed) := by
    rw [parseResponse, h]
    exact congrArg some (if_neg hchanged)
  rw [Answers.next, h, hparse]

theorem Answers.Inv.next {s : Answers} (h : s.Inv) (msg : Response N) :
    (s.next numberText msg).Inv := by
  rcases htext : weatherText numberText msg with _ | text
  · rwa [next_none htext]
  · rcases eq_or_ne (s.responses msg.request.key) (some text) with hsame | hchanged
    · rw [next_same htext hsame]
      exact h.append hsame (fun _ _ => rfl) (reported_same h hsame)
    · rw [next_changed htext hchanged]
      exact h.append (Function.update_self ..) (fun key hne => Function.update_of_ne hne ..)
        (reported_changed h hchanged)

theorem answers_append_singleton (msgs : List (Response N)) (msg : Response N) :
    answers numberText (msgs ++ [msg]) = (answers numberText msgs).next numberText msg :=
  List.foldl_append

theorem answers_inv (msgs : List (Response N)) : (answers numberText msgs).Inv := by
  apply List.foldlRecOn
  · refine ⟨fun request text => ?_, .nil⟩
    simp [not_last_nil]
  · intro s hs msg _
    exact hs.next msg

theorem answered_answers (msgs : List (Response N)) :
    (answers numberText msgs).answered.map (fun answer => (answer.request, answer.text)) =
      msgs.filterMap fun msg =>
        (weatherText numberText msg).map fun text => (msg.request, text) := by
  induction msgs using List.reverseRecOn with
  | nil => rfl
  | append_singleton msgs msg ih =>
    rw [answers_append_singleton, List.filterMap_append, ← ih]
    rcases htext : weatherText numberText msg with _ | text
    · simp [next_none htext, htext]
    · rcases eq_or_ne ((answers numberText msgs).responses msg.request.key) (some text)
        with hsame | hchanged
      · simp [next_same htext hsame, htext]
      · simp [next_changed htext hchanged, htext]

/-- An answer says that it is the same exactly if the most recent answer to the same request was,
and of a request that was answered before, that it changed exactly if that answer was another
one. -/
theorem changes_reported (numberText : N → JsString) (msgs : List (Response N)) :
    (answers numberText msgs).answered.map (fun answer => (answer.request, answer.text)) =
      (msgs.filterMap fun msg =>
        (weatherText numberText msg).map fun text => (msg.request, text)) ∧
    Each Reported (answers numberText msgs).answered :=
  ⟨answered_answers msgs, (answers_inv msgs).reported⟩

/-! ## Sun, rain and sun -/

def milan (description : JsString) : Response Nat where
  city := js "Milan"
  requestInfo := { day := .tomorrow, type := .forecast }
  payload := List.replicate 40 { description := description, speed := 3 }

def sun : JsString := js "Tomorrow's forecast for Milan is clear sky!"
def rain : JsString := js "Tomorrow's forecast for Milan is light rain!"

def inMilan (text : JsString) : Answer where
  request := { type := .forecast, day := .tomorrow, city := js "Milan" }
  text := text
  sent := text ++ changed

def threeDays : List Answer :=
  (answers (fun speed => js (toString speed))
    [milan (js "clear sky"), milan (js "light rain"), milan (js "clear sky")]).answered

theorem threeDays_eq : threeDays = [inMilan sun, inMilan rain, inMilan sun] := by decide

theorem earlier_answer_forgotten :
    (¬ Each (fun earlier answer => sameSentence <:+ answer.sent ↔
      ∃ before ∈ earlier, before.request = answer.request ∧ before.text = answer.text) threeDays) ∧
    ¬ Each (fun earlier answer => changedSentence <:+ answer.sent ↔
      ∃ last, Last (Answer.About answer.request) earlier last ∧ last.text ≠ answer.text)
      threeDays := by
  refine ⟨fun h => ?_, fun h => ?_⟩
  · have hthird := h [inMilan sun, inMilan rain] (inMilan sun) [] threeDays_eq
    exact (changed_suffix sun).2 (hthird.mpr ⟨inMilan sun, by simp, rfl, rfl⟩)
  · have hfirst := h [] (inMilan sun) [inMilan rain, inMilan sun] threeDays_eq
    obtain ⟨last, hlast, -⟩ := hfirst.mp (changed_suffix sun).1
    exact not_last_nil hlast

end Nsds.Bot
