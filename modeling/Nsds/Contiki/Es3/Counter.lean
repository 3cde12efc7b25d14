import Nsds.Contiki.Es3.Code
import Nsds.Lib.History

/-!
# The counter

`received` says that some response came, and not which. It is right as long as no response
comes to a request that is not the newest.
-/

namespace Nsds.Es3

open History Transition

/-! ## What the counter is for -/

/-- The newest request, whether it is answered, and how many in a row were answered before. -/
structure Progress where
  newest : Option Datagram
  answered : Bool
  streak : Nat

/-- A request after an answered one goes on with the streak, and any other starts it again. -/
def Progress.next (p : Progress) : Entry → Progress
  | .request d => {
      newest := some d
      answered := false
      streak := if p.answered then p.streak + 1 else 0 }
  | .response d => if p.newest = some d then { p with answered := true } else p

def progress (history : List Entry) : Progress :=
  history.foldl Progress.next { newest := none, answered := false, streak := 0 }

/-- A request counts on only from one that is answered, and counts those in a row. -/
def CountCorrect (w : Nat) (pre : List Entry) (entry : Entry) : Prop :=
  ∀ d, entry = .request d →
    (∀ n, d.count = n + 1 → ∃ d', (progress pre).newest = some d' ∧ d'.count = n ∧
      (progress pre).answered = true) ∧
    d.count = ((progress pre).next entry).streak % 2 ^ w

/-- The response is to the newest request, or `received` is set already. -/
def Timely (s : State) : Action → Prop
  | .receive d => (progress s.history).newest = some d ∨ s.received = true
  | _ => True

theorem progress_append_singleton (history : List Entry) (entry : Entry) :
    progress (history ++ [entry]) = (progress history).next entry := List.foldl_append ..

/-! ## Runs with timely responses -/

/-- The fields of the client say how far the exchange is. -/
structure Inv (w : Nat) (s : State) : Prop where
  received : s.received = (progress s.history).answered
  count : s.count = (progress s.history).streak % 2 ^ w
  newest : ∀ d, (progress s.history).newest = some d → d.count = s.count
  answered : (progress s.history).answered = true → (progress s.history).newest ≠ none
  correct : Each (CountCorrect w) s.history

theorem Inv.start (w : Nat) : Inv w .start where
  received := rfl
  count := (Nat.zero_mod _).symm
  newest := nofun
  answered := nofun
  correct := Each.nil

theorem Inv.clientCallback {w : Nat} {s : State} (h : Inv w s) {d : Datagram}
    (htimely : (progress s.history).newest = some d ∨ s.received = true) :
    Inv w (s.clientCallback d) := by
  have hnext : (progress s.history).next (.response d) =
      { progress s.history with answered := true } := by
    simp only [Progress.next]
    rcases htimely with hnewest | hreceived
    · rw [if_pos hnewest]
    · have hanswered := h.received.symm.trans hreceived
      split
      · rfl
      · rw [← hanswered]
  have hsome : (progress s.history).newest ≠ none := by
    rcases htimely with hnewest | hreceived
    · simp [hnewest]
    · exact h.answered (h.received.symm.trans hreceived)
  unfold State.clientCallback
  refine ⟨?_, ?_, ?_, ?_, ?_⟩
  · rw [progress_append_singleton, hnext]
  · rw [progress_append_singleton, hnext]
    exact h.count
  · rw [progress_append_singleton, hnext]
    exact h.newest
  · rw [progress_append_singleton, hnext]
    exact fun _ => hsome
  · rw [each_append_singleton]
    exact ⟨h.correct, nofun⟩

theorem eq_of_succ_mod {count n size : Nat} (hlt : count < size)
    (h : (count + 1) % size = n + 1) : count = n := by
  rcases Nat.lt_or_ge (count + 1) size with hroom | hfull
  · rw [Nat.mod_eq_of_lt hroom] at h
    omega
  · obtain rfl : size = count + 1 := by omega
    simp at h

theorem Inv.wake {w : Nat} {s : State} (h : Inv w s) (reachable : Bool) :
    Inv w (s.wake w reachable) := by
  unfold State.wake
  split
  case isFalse => exact h
  split
  case isFalse => exact ⟨h.received, h.count, h.newest, h.answered, h.correct⟩
  have hcount : (if !s.received then 0 else (s.count + 1) % 2 ^ w) =
      (if (progress s.history).answered then (progress s.history).streak + 1 else 0) % 2 ^ w := by
    rw [h.received, h.count]
    cases (progress s.history).answered <;> simp
  refine ⟨?_, ?_, ?_, ?_, ?_⟩
  · rw [progress_append_singleton]
    rfl
  · rw [progress_append_singleton, hcount]
    rfl
  · rw [progress_append_singleton]
    rintro d hd
    obtain rfl := Option.some.inj hd
    rfl
  · rw [progress_append_singleton]
    nofun
  · rw [each_append_singleton]
    refine ⟨h.correct, ?_⟩
    rintro d hd
    obtain rfl := Entry.request.inj hd
    refine ⟨fun n hn => ?_, hcount⟩
    cases hreceived : s.received with
    | false => simp [hreceived] at hn
    | true =>
      have hanswered := h.received.symm.trans hreceived
      obtain ⟨d', hnewest⟩ := Option.ne_none_iff_exists'.mp (h.answered hanswered)
      refine ⟨d', hnewest, ?_, hanswered⟩
      rw [h.newest d' hnewest]
      simp only [hreceived, Bool.not_true, Bool.false_eq_true, if_false] at hn
      exact eq_of_succ_mod (h.count ▸ Nat.mod_lt _ (Nat.two_pow_pos w)) hn

theorem inv_of_reachable {w : Nat} {s : State} (h : ((system w).restrict Timely).Reachable s) :
    Inv w s := by
  refine h.invariant (Inv w) ?_ ?_
  · rintro s rfl
    exact .start w
  · rintro s a t ⟨hreceived, hcount, hnewest, hanswered, hcorrect⟩ ⟨htimely, hstep⟩
    cases hstep with
    | wake e pre post reachable he =>
      refine Inv.wake (s := { s with events := pre ++ post }) ?_ reachable
      exact ⟨hreceived, hcount, hnewest, hanswered, hcorrect⟩
    | receive d pre post hd =>
      refine Inv.clientCallback (s := { s with responses := pre ++ post }) ?_ htimely
      exact ⟨hreceived, hcount, hnewest, hanswered, hcorrect⟩
    | _ => exact ⟨hreceived, hcount, hnewest, hanswered, hcorrect⟩

/-- In every run with timely responses the counts are right. -/
theorem counts_correct {w : Nat} {s : State} (h : ((system w).restrict Timely).Reachable s) :
    Each (CountCorrect w) s.history := (inv_of_reachable h).correct

/-- A response that is not timely makes the client count on from a request that is not
answered, as soon as it can send again. -/
theorem untimely_miscounts {w : Nat} {s t : State} (h : ((system w).restrict Timely).Reachable s)
    {d : Datagram} (hstep : Step w s (.receive d) t) (hlate : ¬ Timely s (.receive d))
    (hroom : s.count + 1 < 2 ^ w) :
    ∃ u, (system w).Reachable u ∧ ¬ Each (CountCorrect w) u.history := by
  have hinv := inv_of_reachable h
  have ht := h.of_restrict.step hstep
  unfold Timely at hlate
  rw [not_or, Bool.not_eq_true] at hlate
  obtain ⟨hnewest, hreceived⟩ := hlate
  cases hstep with
  | receive _ pre post hd =>
    refine ⟨_, ht.step (.wake .received s.events [] true rfl), fun heach => ?_⟩
    simp only [State.wake, State.clientCallback, Bool.or_true, if_true,
      each_append_singleton] at heach
    obtain ⟨-, hlast⟩ := heach
    obtain ⟨d', -, -, hanswered⟩ := (hlast _ rfl).1 s.count (Nat.mod_eq_of_lt hroom)
    rw [progress_append_singleton, Progress.next, if_neg hnewest, ← hinv.received,
      hreceived] at hanswered
    cases hanswered

theorem counts_correct_two : ∃ s : State,
    s.history = [.request ⟨0, 0⟩, .response ⟨0, 0⟩, .request ⟨1, 1⟩] ∧
    Each (CountCorrect 32) s.history := by
  have h0 : ((system 32).restrict Timely).Reachable .start := .start rfl
  have h1 := h0.restrict_step (.expire rfl) trivial
  have h2 := h1.restrict_step (.wake .timer [] [] true rfl) trivial
  have h3 := h2.restrict_step (.serve ⟨0, 0⟩ [] [] rfl) trivial
  have h4 := h3.restrict_step (.receive ⟨0, 0⟩ [] [] rfl) (.inl rfl)
  have h5 := h4.restrict_step (.wake .received [] [] true rfl) trivial
  exact ⟨_, rfl, counts_correct h5⟩

/-- The response to request 1, with its count 1, comes after request 2 with count 0. -/
theorem late_response_miscounts : ¬ ∀ s, (system 32).Reachable s →
    Each (CountCorrect 32) s.history := by
  intro hall
  have h0 : (system 32).Reachable .start := .start rfl
  have h1 := h0.step (.expire rfl)
  have h2 := h1.step (.wake .timer [] [] true rfl)
  have h3 := h2.step (.serve ⟨0, 0⟩ [] [] rfl)
  have h4 := h3.step (.receive ⟨0, 0⟩ [] [] rfl)
  have h5 := h4.step (.wake .received [] [] true rfl)
  have h6 := h5.step (.serve ⟨1, 1⟩ [] [] rfl)
  have h7 := h6.step (.expire rfl)
  have h8 := h7.step (.wake .timer [] [] true rfl)
  have h9 := h8.step (.receive ⟨1, 1⟩ [] [] rfl)
  have h10 := h9.step (.wake .received [] [] true rfl)
  have hlast := hall _ h10 [.request ⟨0, 0⟩, .response ⟨0, 0⟩, .request ⟨1, 1⟩, .request ⟨2, 0⟩,
    .response ⟨1, 1⟩] (.request ⟨3, 1⟩) [] rfl ⟨3, 1⟩ rfl
  obtain ⟨d', -, -, hanswered⟩ := hlast.1 0 rfl
  exact absurd hanswered (by decide)

end Nsds.Es3
