import Nsds.Contiki.Es1.Code
import Nsds.Lib.Arrays

/-!
# The bounded buffer

What is popped and what is in the array is what was produced, in order, and whoever waits
for the other is woken.
-/

namespace Nsds.Es1

open EventLoop Transition

/-! ## The array -/

theorem read_eq {queue : List Int} {i : Nat} (hi : i < queue.length) :
    read queue i = some (queue[i]) := by
  simp [read, hi]

theorem write_eq {queue : List Int} {i : Nat} (hi : i < queue.length) (x : Int) :
    write queue i x = some (queue.set i x) := by
  simp [write, hi]

theorem dequeue_eq {queue : List Int} {n : Nat} (hn : n < queue.length) :
    dequeue queue n = some (queue.tail.take n ++ queue.drop n) := by
  induction n with
  | zero => rfl
  | succ n ih =>
    have hlength : (queue.tail.take n).length = n := by simp; omega
    have hlen : n < (queue.tail.take n ++ queue.drop n).length := by simp [hlength]; omega
    have hread : read (queue.tail.take n ++ queue.drop n) (n + 1) = some queue[n + 1] := by
      rw [← Int.natCast_succ, read_eq (by simp [hlength]; omega),
        List.getElem_append_right (by omega)]
      simp [hlength]
    have hset : (queue.tail.take n ++ queue.drop n).set n queue[n + 1] =
        queue.tail.take (n + 1) ++ queue.drop (n + 1) := by
      have htail : n < queue.tail.length := by rw [List.length_tail]; omega
      rw [List.set_append_right _ _ (by omega), hlength, Nat.sub_self,
        List.drop_eq_getElem_cons (by omega : n < queue.length), List.set_cons_zero,
        List.take_add_one, List.getElem?_eq_getElem htail, List.getElem_tail,
        List.append_assoc]
      rfl
    unfold dequeue at ih ⊢
    rw [List.range_succ, List.foldlM_append, ih (by omega)]
    simp only [List.foldlM_cons, List.foldlM_nil, Option.bind_eq_bind, Option.bind_some]
    rw [hread, Option.bind_some, write_eq hlen, hset]
    rfl

/-! ## One turn -/

/-- What holds whenever no process is running. -/
structure Good (s : Shared) : Prop where
  producerAt : s.producerAt = .waitEventUntil
  consumerAt : s.consumerAt ≠ .begin
  length : s.queue.length = 10
  nonneg : 0 ≤ s.numEl
  le : s.numEl ≤ 10
  order : s.popped ++ s.queue.take s.numEl.toNat = s.produced

/-- There is room for the producer, and an element for the consumer. -/
def Ready (p : Proc) (s : Shared) : Prop :=
  (p = .producer → s.numEl < 10) ∧ (p = .consumer → 0 < s.numEl)

theorem producer_turn {s : Shared} (h : Good s) (random : Nat) (expired : Bool) :
    ∃ turn, producer random expired s = some turn ∧
      Considerate Good Ready .producer expired s turn := by
  obtain ⟨n, hn⟩ := Int.eq_ofNat_of_zero_le h.nonneg
  have hlength := h.length
  have hle := h.le
  unfold producer
  simp only [h.producerAt]
  split
  case isTrue hcond =>
    have hlt : n < s.queue.length := by omega
    rw [hn, write_eq hlt]
    refine ⟨_, rfl, ⟨rfl, h.consumerAt, ?_, ?_, ?_, ?_⟩, fun _ => .inl rfl, ?_⟩
    · exact List.length_set.trans hlength
    · simp only
      omega
    · simp only
      omega
    · have horder := h.order
      simp only [hn, Int.toNat_natCast] at horder
      simp only [← Int.natCast_succ, Int.toNat_natCast]
      rw [Arrays.take_succ_set hlt, ← List.append_assoc, horder]
    · rintro q hne -
      obtain rfl : q = .consumer := by cases q <;> simp_all
      exact .inr ⟨.added, List.mem_cons_self⟩
  case isFalse hcond =>
    refine ⟨_, rfl, ?_, fun hexpired => .inr fun hroom => hcond ⟨hexpired, hroom.1 rfl⟩, ?_⟩
    · exact h
    · exact fun q _ hready => .inl hready

theorem consumer_turn {s : Shared} (h : Good s) (expired : Bool) :
    ∃ turn, consumer expired s = some turn ∧
      Considerate Good Ready .consumer expired s turn := by
  obtain ⟨n, hn⟩ := Int.eq_ofNat_of_zero_le h.nonneg
  have hlength := h.length
  have hle := h.le
  unfold consumer
  split
  case h_1 hat => exact absurd hat h.consumerAt
  case h_2 hat =>
    refine ⟨_, rfl, ⟨h.producerAt, nofun, hlength, h.nonneg, hle, h.order⟩, fun _ => .inl rfl, ?_⟩
    exact fun q _ hready => .inl hready
  case h_3 hat =>
    split
    case isTrue hcond =>
      obtain ⟨n, rfl⟩ : ∃ m, n = m + 1 := ⟨n - 1, by omega⟩
      obtain ⟨x, rest, hqueue⟩ := List.exists_cons_of_length_pos (l := s.queue) (by omega)
      have hlt : n < (x :: rest).length := by rw [← hqueue]; omega
      have hread : read (x :: rest) 0 = some x := rfl
      have hnum : s.numEl - 1 = n := by omega
      simp only [hqueue, hread, hnum, Option.bind_eq_bind, Option.bind_some, Int.toNat_natCast,
        dequeue_eq hlt, List.tail_cons]
      rw [hqueue, List.length_cons] at hlength
      have htake : (rest.take n ++ (x :: rest).drop n).take n = rest.take n :=
        List.take_left' (by rw [List.length_take]; omega)
      refine ⟨_, rfl, ⟨h.producerAt, h.consumerAt, ?_, ?_, ?_, ?_⟩, fun _ => .inl rfl, ?_⟩
      · simp
        omega
      · simp only
        omega
      · simp only
        omega
      · have horder := h.order
        rw [hqueue, hn, Int.toNat_natCast, List.take_succ_cons] at horder
        simp only [Int.toNat_natCast, htake]
        rw [List.append_assoc, List.singleton_append, horder]
      · rintro q hne -
        obtain rfl : q = .producer := by cases q <;> simp_all
        exact .inr ⟨.popped, List.mem_cons_self⟩
    case isFalse hcond =>
      refine ⟨_, rfl, h, fun hexpired => .inr fun hsome => hcond ⟨hexpired, hsome.2 rfl⟩, ?_⟩
      exact fun q _ hready => .inl hready

theorem program_law : Law program Good Ready := by
  intro p e x expired s h
  cases p with
  | producer => exact producer_turn h x expired
  | consumer => exact consumer_turn h expired

theorem autostart_good : ∃ s, autostart = some s ∧ Good s.shared ∧ ∀ p, Armed Ready s p := by
  refine ⟨_, rfl, ⟨rfl, by decide, rfl, by decide, by decide, rfl⟩, fun p hready => ?_⟩
  cases p with
  | producer => exact .inl rfl
  | consumer => exact absurd (hready.2 rfl) (by decide)

/-- No access is out of bounds, nothing is lost, and the two never wait for each other. -/
theorem bounded_buffer {o : Option (State Proc Event Shared)}
    (h : (system program .timer autostart).Reachable o) :
    ∃ s, o = some s ∧ 0 ≤ s.shared.numEl ∧ s.shared.numEl ≤ 10 ∧
      s.shared.popped ++ s.shared.queue.take s.shared.numEl.toNat = s.shared.produced ∧
      ¬ (s.pending = [] ∧ ∀ p, s.running p = false) := by
  obtain ⟨s, rfl, hgood, harmed⟩ := armed_reachable program_law autostart_good h
  refine ⟨s, rfl, hgood.nonneg, hgood.le, hgood.order, ?_⟩
  rintro ⟨hpending, hrunning⟩
  have hnot : ∀ p, ¬ Ready p s.shared := by
    intro p hready
    rcases harmed p hready with hrun | ⟨e, he⟩
    · simp [hrunning p] at hrun
    · simp [hpending] at he
  have hfull : ¬ s.shared.numEl < 10 := fun hlt => hnot .producer ⟨fun _ => hlt, nofun⟩
  have hempty : ¬ 0 < s.shared.numEl := fun hpos => hnot .consumer ⟨nofun, fun _ => hpos⟩
  omega

theorem bounded_buffer_one : ∃ s : State Proc Event Shared, s.shared.produced = [7] ∧
    s.shared.popped ++ s.shared.queue.take s.shared.numEl.toNat = s.shared.produced ∧
    s.shared.numEl = 0 := by
  have h0 : (system program .timer autostart).Reachable autostart := .start rfl
  have h1 := h0.step (.expire _ .producer rfl)
  have h2 := h1.step (.deliver _ .producer .timer 17 [] [] rfl)
  have h3 := h2.step (.deliver _ .consumer .added 0 [] [] rfl)
  have h4 := h3.step (.expire _ .consumer rfl)
  have h5 := h4.step (.deliver _ .consumer .timer 0 [] [] rfl)
  obtain ⟨s, hs, -, -, horder, -⟩ := bounded_buffer h5
  obtain rfl := Option.some.inj hs
  exact ⟨_, rfl, horder, rfl⟩

end Nsds.Es1
