import Nsds.Lib.History
import Nsds.Lib.Mean
import Nsds.Lib.RingBuffer

/-!
# `Contiki-NG/NSDS-contiking-eval-23/udp-server.c`

The server keeps the last readings in an array, where zero stands for an empty slot, and
logs their average whenever it receives one. The arithmetic is exact.
-/

namespace Nsds.Eval23.UdpServer

open History Mean RingBuffer

def maxReadings : Nat := 10

/-- The last readings, and the slot of the next one. -/
structure Server where
  readings : List ℚ
  nextReading : Nat
deriving DecidableEq

/-- What the callback logs, with `no`, the divisor of the average. -/
structure Logged where
  received : ℚ
  array : List ℚ
  no : Nat
  average : ℚ
deriving DecidableEq

def Server.start : Server where
  readings := List.replicate maxReadings 0
  nextReading := 0

/-- The next reading replaces the oldest. -/
def Server.addReading (s : Server) (reading : ℚ) : Server where
  readings := s.readings.set s.nextReading reading
  nextReading := if s.nextReading + 1 = maxReadings then 0 else s.nextReading + 1

/-- A turn of the loop that computes the average. -/
def addToSum : ℚ × Nat → ℚ → ℚ × Nat
  | (sum, no), reading => if reading ≠ 0 then (sum + reading, no + 1) else (sum, no)

def udpRxCallback (s : Server) (reading : ℚ) : Server × Logged :=
  let s := s.addReading reading
  let (sum, no) := s.readings.foldl addToSum (0, 0)
  (s, { received := reading, array := s.readings, no := no, average := sum / no })

/-- The server after all of `received`. -/
def after (received : List ℚ) : Server :=
  received.foldl (fun s reading => (udpRxCallback s reading).1) .start

theorem after_append_singleton (received : List ℚ) (reading : ℚ) :
    after (received ++ [reading]) = (after received).addReading reading := by
  unfold after
  rw [List.foldl_append]
  rfl

/-! ## The window -/

/-- The array holds the last readings, from the slot that is written next on, after the
slots that are still empty. -/
structure Window (received : List ℚ) (s : Server) : Prop where
  next : s.nextReading < maxReadings
  length : s.readings.length = maxReadings
  contents : contents s.readings s.nextReading =
    List.replicate (maxReadings - received.length) 0 ++ received.rtake maxReadings

theorem Window.start : Window [] .start where
  next := by decide
  length := rfl
  contents := rfl

theorem Window.addReading {received : List ℚ} {s : Server} (h : Window received s)
    (reading : ℚ) : Window (received ++ [reading]) (s.addReading reading) := by
  unfold Server.addReading
  refine ⟨?_, by simp [h.length], ?_⟩
  · have := h.next
    dsimp only
    split <;> omega
  · have hset := contents_set (by rw [h.length]; exact h.next) reading
    rw [h.length] at hset
    rw [hset, h.contents, ← rtake_replicate_append, ← rtake_replicate_append, ← List.append_assoc,
      rtake_append_singleton (by decide) (by simp)]

theorem window (received : List ℚ) : Window received (after received) := by
  induction received using List.reverseRecOn with
  | nil => exact .start
  | append_singleton received reading ih =>
    rw [after_append_singleton]
    exact ih.addReading reading

/-! ## The average -/

/-- What is logged is the array, and the mean of the last readings. -/
structure AverageLogged (received : List ℚ) (s : Server) (logged : Logged) : Prop where
  array : logged.array = s.readings
  no : logged.no = (received.rtake maxReadings).length
  no_ne_zero : logged.no ≠ 0
  average : logged.average =
    (received.rtake maxReadings).sum / (received.rtake maxReadings).length

theorem Window.average {received : List ℚ} {s : Server} {reading : ℚ}
    (h : Window (received ++ [reading]) (s.addReading reading))
    (hreceived : ∀ r ∈ received ++ [reading], r ≠ 0) :
    AverageLogged (received ++ [reading]) (udpRxCallback s reading).1
      (udpRxCallback s reading).2 := by
  have hperm := filter_ne_perm (h.contents.trans (rtake_replicate_append ..).symm) hreceived
  have hfold : (s.addReading reading).readings.foldl addToSum (0, 0) =
      (((received ++ [reading]).rtake maxReadings).sum,
        ((received ++ [reading]).rtake maxReadings).length) := by
    rw [foldl_nonzero (fun _ _ _ => rfl), hperm.sum_eq, hperm.length_eq, zero_add, Nat.zero_add]
  unfold udpRxCallback
  simp only [hfold]
  refine ⟨rfl, rfl, ?_, rfl⟩
  simp [List.rtake, maxReadings]
  omega

/-- After every reception the array holds the last readings, and what is logged is their mean. -/
theorem window_average {received : List ℚ} (hreceived : ∀ r ∈ received, r ≠ 0) :
    Each (fun pre reading =>
      Window (pre ++ [reading]) (udpRxCallback (after pre) reading).1 ∧
        AverageLogged (pre ++ [reading]) (udpRxCallback (after pre) reading).1
          (udpRxCallback (after pre) reading).2) received := by
  rintro pre reading post rfl
  have hwindow : Window (pre ++ [reading]) ((after pre).addReading reading) :=
    (window pre).addReading reading
  refine ⟨hwindow, hwindow.average fun r hr => hreceived r ?_⟩
  simp only [List.mem_append, List.mem_cons, List.not_mem_nil, or_false] at hr ⊢
  tauto

theorem window_average_three :
    (∀ r ∈ [30, 25, 5], r ≠ (0 : ℚ)) ∧ (udpRxCallback (after [30, 25]) 5).2.average = 20 := by
  have hreceived : ∀ r ∈ [30, 25, 5], r ≠ (0 : ℚ) := by simp
  have haverage := (window_average hreceived [30, 25] 5 [] rfl).2.average
  exact ⟨hreceived, haverage.trans (by decide +kernel)⟩

end Nsds.Eval23.UdpServer
