import Nsds.Contiki.Eval23.Client
import Nsds.Lib.History
import Nsds.Lib.Mean
import Nsds.Lib.RingBuffer

/-!
# The average on reconnection

`sum` and `no` are static and are never set back, so that an average is that of all
disconnections up to now.
-/

namespace Nsds.Eval23

open History Mean RingBuffer

/-! ## What the averages are for -/

/-- The disconnections that have ended, with the temperatures that the client is to keep of
them, and all temperatures of the one that has not. -/
structure Outages where
  ended : List (List Nat)
  saved : List Nat

/-- A connection ends the disconnection before it. -/
def Outages.next (o : Outages) (w : WakeUp) : Outages :=
  if w.connected then
    if o.saved = [] then o
    else { ended := o.ended ++ [o.saved.rtake maxReadings], saved := [] }
  else { o with saved := o.saved ++ [w.temperature] }

/-- The disconnections of a run. -/
def outages (ws : List WakeUp) : Outages := ws.foldl Outages.next { ended := [], saved := [] }

/-- An average is that of the last temperatures saved in the disconnection just ended. -/
def AverageCorrect (pre : List WakeUp) (w : WakeUp) : Prop :=
  ∀ value, .average value ∈ ((Client.after pre).wakeUp w).2 →
    (outages pre).saved ≠ [] ∧ value = mean ((outages pre).saved.rtake maxReadings) ∧
      ((Client.after pre).wakeUp w).1.no ≠ 0

theorem after_append_singleton (ws : List WakeUp) (w : WakeUp) :
    Client.after (ws ++ [w]) = ((Client.after ws).wakeUp w).1 := List.foldl_append ..

theorem outages_append_singleton (ws : List WakeUp) (w : WakeUp) :
    outages (ws ++ [w]) = (outages ws).next w := List.foldl_append ..

theorem temperature_ne_zero (w : WakeUp) : w.temperature ≠ 0 := by
  have hfake : ∀ t ∈ fakeTemps, t ≠ 0 := by decide
  exact hfake _ (List.get_mem ..)

theorem foldl_addReading (readings : List Nat) (sum no : Nat) :
    readings.foldl addReading (sum, no) =
      (sum + (readings.filter (· ≠ 0)).sum, no + (readings.filter (· ≠ 0)).length) :=
  foldl_nonzero (fun _ _ _ => rfl) readings sum no

/-! ## What the client keeps -/

/-- The client knows the disconnection it is in, and all that were before it. -/
structure Keeps (c : Client) (o : Outages) : Prop where
  length : c.readings.length = maxReadings
  next : c.nextReading < maxReadings
  disconnected : c.disconnected = true ↔ o.saved ≠ []
  readings : contents c.readings c.nextReading =
    (List.replicate maxReadings 0 ++ o.saved).rtake maxReadings
  saved : ∀ t ∈ o.saved, t ≠ 0
  ended : ∀ l ∈ o.ended, l ≠ []
  sum : c.sum = o.ended.flatten.sum
  no : c.no = o.ended.flatten.length

theorem Keeps.start : Keeps .start { ended := [], saved := [] } where
  length := rfl
  next := by decide
  disconnected := by simp [Client.start]
  readings := rfl
  saved := List.forall_mem_nil _
  ended := List.forall_mem_nil _
  sum := rfl
  no := rfl

theorem Keeps.filter_readings {c : Client} {o : Outages} (h : Keeps c o) :
    (c.readings.filter (· ≠ 0)).Perm (o.saved.rtake maxReadings) :=
  filter_ne_perm h.readings h.saved

theorem rtake_ne_nil {l : List Nat} (h : l ≠ []) : l.rtake maxReadings ≠ [] := by
  have hlength := List.length_pos_iff.mpr h
  unfold List.rtake maxReadings
  rw [← List.length_pos_iff, List.length_drop]
  omega

theorem Keeps.average {c : Client} {o : Outages} (h : Keeps c o) :
    c.readings.foldl addReading (c.sum, c.no) =
      ((o.ended.flatten ++ o.saved.rtake maxReadings).sum,
        (o.ended.flatten ++ o.saved.rtake maxReadings).length) := by
  rw [foldl_addReading, h.filter_readings.sum_eq, h.filter_readings.length_eq, h.sum, h.no,
    List.sum_append, List.length_append]

theorem Keeps.reconnect {c : Client} {o : Outages} (h : Keeps c o) {w : WakeUp}
    (hw : w.connected = true) (hsaved : o.saved ≠ []) :
    Keeps (c.wakeUp w).1 (o.next w) ∧ (c.wakeUp w).2 =
      [.average (mean (o.ended.flatten ++ o.saved.rtake maxReadings)),
        .temperature w.temperature] := by
  have hflat : (o.ended ++ [o.saved.rtake maxReadings]).flatten =
      o.ended.flatten ++ o.saved.rtake maxReadings := by
    rw [List.flatten_append, List.flatten_singleton]
  rw [Client.wakeUp, if_pos hw, if_pos (h.disconnected.mpr hsaved), h.average, Outages.next,
    if_pos hw, if_neg hsaved]
  refine ⟨⟨rfl, h.next, by simp, ?_, List.forall_mem_nil _, ?_, ?_, ?_⟩, rfl⟩
  · rw [contents_replicate _ _ h.next.le]
    rfl
  · rw [List.forall_mem_append, List.forall_mem_singleton]
    exact ⟨h.ended, rtake_ne_nil hsaved⟩
  · rw [hflat]
  · rw [hflat]

theorem Keeps.connected {c : Client} {o : Outages} (h : Keeps c o) {w : WakeUp}
    (hw : w.connected = true) (hsaved : o.saved = []) :
    Keeps (c.wakeUp w).1 (o.next w) ∧ (c.wakeUp w).2 = [.temperature w.temperature] := by
  have hnext : o.next w = o := by rw [Outages.next, if_pos hw, if_pos hsaved]
  have hflag : ¬ c.disconnected = true := mt h.disconnected.mp (not_not.mpr hsaved)
  rw [Client.wakeUp, if_pos hw, if_neg hflag, hnext]
  exact ⟨h, rfl⟩

theorem Keeps.disconnect {c : Client} {o : Outages} (h : Keeps c o) {w : WakeUp}
    (hw : w.connected = false) : Keeps (c.wakeUp w).1 (o.next w) ∧ (c.wakeUp w).2 = [] := by
  have hoff : ¬ w.connected = true := by simp [hw]
  rw [Client.wakeUp, if_neg hoff, Outages.next, if_neg hoff]
  refine ⟨⟨?_, ?_, ?_, ?_, ?_, h.ended, h.sum, h.no⟩, rfl⟩
  · rw [List.length_set, h.length]
  · have := h.next
    dsimp only
    split <;> omega
  · simp
  · have hset := contents_set (by rw [h.length]; exact h.next) w.temperature
    rw [h.length] at hset
    rw [hset, h.readings, ← List.append_assoc,
      rtake_append_singleton (by decide) (by simp)]
  · rw [List.forall_mem_append, List.forall_mem_singleton]
    exact ⟨h.saved, temperature_ne_zero w⟩

theorem keeps (ws : List WakeUp) : Keeps (Client.after ws) (outages ws) := by
  induction ws using List.reverseRecOn with
  | nil => exact .start
  | append_singleton ws w ih =>
    rw [after_append_singleton, outages_append_singleton]
    cases hw : w.connected with
    | false => exact (ih.disconnect hw).1
    | true =>
      rcases eq_or_ne (outages ws).saved [] with hsaved | hsaved
      · exact (ih.connected hw hsaved).1
      · exact (ih.reconnect hw hsaved).1

/-- The averages are right exactly if there is but one mean. -/
theorem averages_correct_iff (ws : List WakeUp) :
    Each AverageCorrect ws ↔ SameMean (outages ws).ended := by
  induction ws using List.reverseRecOn with
  | nil => exact ⟨fun _ => List.forall_mem_nil _, fun _ => Each.nil⟩
  | append_singleton ws w ih =>
    have hkeeps := keeps ws
    rw [each_append_singleton, ih, outages_append_singleton]
    unfold AverageCorrect
    cases hw : w.connected with
    | false =>
      obtain ⟨-, hsent⟩ := hkeeps.disconnect hw
      rw [hsent]
      simp [Outages.next, hw]
    | true =>
      rcases eq_or_ne (outages ws).saved [] with hsaved | hsaved
      · obtain ⟨-, hsent⟩ := hkeeps.connected hw hsaved
        rw [hsent]
        simp [Outages.next, hw, hsaved]
      · obtain ⟨hnext, hsent⟩ := hkeeps.reconnect hw hsaved
        have hended : ((outages ws).next w).ended =
            (outages ws).ended ++ [(outages ws).saved.rtake maxReadings] := by
          rw [Outages.next, if_pos hw, if_neg hsaved]
        have hno : (((Client.after ws).wakeUp w).1).no ≠ 0 := by
          rw [hnext.no, hended, List.flatten_append, List.flatten_singleton]
          exact (List.length_pos_iff.mpr
            (List.append_ne_nil_of_right_ne_nil _ (rtake_ne_nil hsaved))).ne'
        rw [hended, sameMean_append_singleton hkeeps.ended (rtake_ne_nil hsaved), hsent]
        refine and_congr_right fun _ =>
          ⟨fun h => (h _ List.mem_cons_self).2.1, fun h value hmem => ?_⟩
        obtain rfl : value = _ := by simpa using hmem
        exact ⟨hsaved, h, hno⟩

theorem second_average_wrong : ¬ Each AverageCorrect
    [⟨0, false, false⟩, ⟨0, true, true⟩, ⟨4, false, false⟩, ⟨0, true, true⟩] := by
  intro h
  have hlast := h [⟨0, false, false⟩, ⟨0, true, true⟩, ⟨4, false, false⟩] ⟨0, true, true⟩ [] rfl
  obtain ⟨-, hvalue, -⟩ := hlast 20 (by decide +kernel)
  exact absurd hvalue (by decide +kernel)

end Nsds.Eval23
