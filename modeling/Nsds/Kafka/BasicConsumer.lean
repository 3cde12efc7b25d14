import Nsds.Kafka.ConsumerGroup
import Nsds.Lib.Transition

/-!
# `basic/BasicConsumer.java`

The members of a group print what they poll. `poll` also commits from time to time: it sends
where the consumer stands, before it gets more, in a request that it does not wait for. A
process that is started again is another member. `C1.java` of the lab is the same loop.
-/

namespace Nsds.Kafka.BasicConsumer

open OffsetLog Transition

/-- `rest` are the records of the last poll that the `for` loop has not come to. -/
structure Consumer (P K V : Type) where
  assigned : Assignment P
  rest : List (ConsumerRecord P K V)

/-- A process before its start, while it is up, and after a crash. -/
inductive Process (P K V : Type) where
  | new
  | up (consumer : Consumer P K V)
  | down

/-- `requests` are the commits that are on their way to the brokers. -/
structure State (P K V M : Type) where
  group : Group P M
  process : M → Process P K V
  requests : List (M × Assignment P)
  printed : List (M × ConsumerRecord P K V)

inductive Event where
  | produce
  | assign
  | revoke
  | start
  | rebalance
  | autoCommit
  | poll
  | println
  | crash
  | committed
  | refused
  | lost

variable {P K V M : Type}

def State.set [DecidableEq M] (s : State P K V M) (m : M) (process : Process P K V) :
    State P K V M :=
  { s with process := Function.update s.process m process }

/-- Requests may overtake each other, or be lost, and outlive their sender. -/
inductive Step [DecidableEq P] [DecidableEq M] (topic : Topic P K V) :
    State P K V M → Event → State P K V M → Prop where
  | produce {s : State P K V M} {p : P} {n : Nat} : s.group.logEnd p ≤ n →
      Step topic s .produce
        { s with group := { s.group with logEnd := Function.update s.group.logEnd p n } }
  | assign {s : State P K V M} {p : P} {m : M} : s.group.owner p = none →
      Step topic s .assign
        { s with group := { s.group with
            owner := Function.update s.group.owner p (some m)
            generation := Function.update s.group.generation p (s.group.generation p + 1) } }
  | revoke {s : State P K V M} {p : P} :
      Step topic s .revoke
        { s with group := { s.group with owner := Function.update s.group.owner p none } }
  | start {s : State P K V M} {m : M} : s.process m = .new →
      Step topic s .start (s.set m (.up { assigned := fun _ => none, rest := [] }))
  -- `poll` goes through these three, each of the first two only if it is time for it.
  | rebalance {s : State P K V M} {m : M} {assigned : Assignment P} :
      s.process m = .up { assigned, rest := [] } →
      Step topic s .rebalance
        (s.set m (.up { assigned := s.group.rebalance m assigned, rest := [] }))
  | autoCommit {s : State P K V M} {m : M} {assigned : Assignment P} :
      s.process m = .up { assigned, rest := [] } →
      Step topic s .autoCommit { s with requests := (m, assigned) :: s.requests }
  | poll {s : State P K V M} {m : M} {assigned assigned' : Assignment P}
      {records : ConsumerRecords P K V} : s.process m = .up { assigned, rest := [] } →
      Polled topic s.group assigned records assigned' →
      Step topic s .poll (s.set m (.up { assigned := assigned', rest := records.all }))
  | println {s : State P K V M} {m : M} {assigned : Assignment P} {record : ConsumerRecord P K V}
      {rest : List (ConsumerRecord P K V)} :
      s.process m = .up { assigned, rest := record :: rest } →
      Step topic s .println
        { s with
          process := Function.update s.process m (.up { assigned, rest })
          printed := s.printed ++ [(m, record)] }
  | crash {s : State P K V M} {m : M} {c : Consumer P K V} : s.process m = .up c →
      Step topic s .crash (s.set m .down)
  | committed {s : State P K V M} {m : M} {assigned : Assignment P}
      {before after : List (M × Assignment P)} : s.requests = before ++ (m, assigned) :: after →
      s.group.Accepts m assigned →
      Step topic s .committed
        { s with group := s.group.commit assigned, requests := before ++ after }
  | refused {s : State P K V M} {m : M} {assigned : Assignment P}
      {before after : List (M × Assignment P)} : s.requests = before ++ (m, assigned) :: after →
      ¬ s.group.Accepts m assigned →
      Step topic s .refused { s with requests := before ++ after }
  | lost {s : State P K V M} {m : M} {assigned : Assignment P}
      {before after : List (M × Assignment P)} : s.requests = before ++ (m, assigned) :: after →
      Step topic s .lost { s with requests := before ++ after }

/-- No member is there yet. The group may have committed offsets from earlier. -/
def system (M : Type) [DecidableEq P] [DecidableEq M] (topic : Topic P K V) :
    System (State P K V M) Event where
  start s := (∀ m, s.process m = .new) ∧ s.requests = [] ∧ s.printed = []
  step := Step topic

/-- Every record from `lo` on and before `hi` is printed. -/
def PrintedBetween (topic : Topic P K V) (s : State P K V M) (p : P) (lo hi : Nat) : Prop :=
  ∀ r ∈ topic.log p, lo ≤ r.offset → r.offset < hi → r ∈ s.printed.map Prod.snd

/-! ## What a position stands for -/

variable {topic : Topic P K V} {s t : State P K V M} {m : M} {p : P}
  {assigned : Assignment P} {rest : List (ConsumerRecord P K V)}

theorem rebalance_held [DecidableEq M] {group : Group P M} (h : group.owner p = some m) :
    ∃ pos, group.rebalance m assigned p = some (group.generation p, pos) ∧
      (assigned p = some (group.generation p, pos) ∨
        pos = group.resume p ∧ ∀ pos', assigned p ≠ some (group.generation p, pos')) := by
  unfold Group.rebalance
  rw [if_pos h]
  split
  · next g pos ha =>
    split
    · next hg => exact ⟨pos, by rw [hg], .inl (by rw [ha, hg])⟩
    · next hg =>
      refine ⟨_, rfl, .inr ⟨rfl, fun pos' ha' => hg ?_⟩⟩
      rw [ha] at ha'
      exact congrArg Prod.fst (Option.some.inj ha')
  · next ha => exact ⟨_, rfl, .inr ⟨rfl, fun pos' => by simp [ha]⟩⟩

theorem polled_between {group : Group P M} {assigned' : Assignment P}
    {records : ConsumerRecords P K V} (h : Polled topic group assigned records assigned')
    {g pos pos' : Nat} (hpos : assigned p = some (g, pos)) (hpos' : assigned' p = some (g, pos'))
    {r : ConsumerRecord P K V} (hr : r ∈ topic.log p) (hlow : pos ≤ r.offset)
    (hhigh : r.offset < pos') : r ∈ records.all := by
  obtain ⟨hf, -, rfl⟩ := h
  have hadvance : pos' = advance (position assigned) records p := by
    simp only [hpos, Option.map_some, Option.some.injEq, Prod.mk.injEq] at hpos'
    exact hpos'.2.symm
  have hposition : position assigned p = pos := position_some hpos
  -- the last record is there already, so `r` is too
  have hlog : r ∈ (topic.upTo group.logEnd).log p := by
    refine List.mem_filter.mpr ⟨hr, ?_⟩
    unfold advance at hadvance
    split at hadvance
    · omega
    · next last hlast =>
      have hmem := (hf.mem_log (List.mem_of_getLast? hlast)).1
      have hend := of_decide_eq_true (List.mem_filter.mp hmem).2
      simp only [decide_eq_true_eq]
      omega
  have hmem : r ∈ records.records p := by
    rw [← hf.range_advance p, mem_range, hposition, ← hadvance]
    exact ⟨hlog, hlow, hhigh⟩
  exact List.mem_flatMap.mpr ⟨p, (records.mem_partitions p).mpr (List.ne_nil_of_mem hmem), hmem⟩

/-- A consumer, or a request that it has sent: both carry positions. -/
inductive Holder (s : State P K V M) (m : M) (assigned : Assignment P)
    (rest : List (ConsumerRecord P K V)) : Prop where
  | consumer : s.process m = .up { assigned, rest } → Holder s m assigned rest
  | request : (m, assigned) ∈ s.requests → rest = [] → Holder s m assigned rest

/-- The position is that of the owner of `p`, in the present generation. -/
def Holds (group : Group P M) (m : M) (assigned : Assignment P) (p : P) (pos : Nat) : Prop :=
  group.owner p = some m ∧ assigned p = some (group.generation p, pos)

/-- Since the partition was assigned, its owner has printed everything from `lo` on. -/
structure From (topic : Topic P K V) (s : State P K V M) (p : P) (lo : Nat) : Prop where
  holder : ∀ m assigned rest pos, Holder s m assigned rest → Holds s.group m assigned p pos →
    lo ≤ pos ∧ ∀ r ∈ topic.log p, lo ≤ r.offset → r.offset < pos →
      r ∈ s.printed.map Prod.snd ∨ r ∈ rest
  committed : ∀ o, s.group.committed p = some o → lo ≤ o

/-- Who holds a partition since its last assignment stands behind what it printed. -/
structure Inv (topic : Topic P K V) (s : State P K V M) : Prop where
  generation : ∀ m assigned rest p g pos, Holder s m assigned rest →
    assigned p = some (g, pos) → g ≤ s.group.generation p
  started : ∀ m assigned, (m, assigned) ∈ s.requests → s.process m ≠ .new
  /-- A member that is up keeps the partitions of its requests for as long as they are its own. -/
  kept : ∀ m assigned c p pos, (m, assigned) ∈ s.requests → s.process m = .up c →
    Holds s.group m assigned p pos → ∃ pos', Holds s.group m c.assigned p pos'
  position : ∀ p, ∃ lo, From topic s p lo

theorem Inv.start [DecidableEq P] [DecidableEq M] (h : (system M topic).start s) :
    Inv topic s := by
  obtain ⟨hnew, hrequests, -⟩ := h
  have hholder {m assigned rest} : ¬ Holder s m assigned rest := by
    rintro (hm | ⟨hm, -⟩)
    · rw [hnew m] at hm
      cases hm
    · simp [hrequests] at hm
  refine ⟨fun _ _ _ _ _ _ h => (hholder h).elim, ?_, ?_, fun p => ?_⟩
  · simp [hrequests]
  · simp [hrequests]
  · refine ⟨(s.group.committed p).getD 0, fun _ _ _ _ h => (hholder h).elim, fun o ho => ?_⟩
    simp [ho]

/-! ## One step -/

theorem From.frame {lo : Nat} (h : From topic s p lo)
    (hprinted : ∀ r ∈ s.printed.map Prod.snd, r ∈ t.printed.map Prod.snd)
    (hholder : ∀ m assigned rest pos, Holder t m assigned rest → Holds t.group m assigned p pos →
      ∃ assigned' rest', Holder s m assigned' rest' ∧ Holds s.group m assigned' p pos ∧
        ∀ r ∈ rest', r ∈ t.printed.map Prod.snd ∨ r ∈ rest)
    (hcommitted : ∀ o, t.group.committed p = some o → lo ≤ o) : From topic t p lo := by
  refine ⟨fun m assigned rest pos hh hp => ?_, hcommitted⟩
  obtain ⟨assigned', rest', hh', hp', hrest⟩ := hholder m assigned rest pos hh hp
  obtain ⟨hlo, hr⟩ := h.holder m assigned' rest' pos hh' hp'
  refine ⟨hlo, fun r hlog hlow hhigh => ?_⟩
  rcases hr r hlog hlow hhigh with hr | hr
  · exact .inl (hprinted r hr)
  · exact hrest r hr

theorem Inv.fewer {group : Group P M} {requests : List (M × Assignment P)} (h : Inv topic s)
    (hrequests : requests ⊆ s.requests) (hgen : ∀ p, s.group.generation p ≤ group.generation p)
    (hholds : ∀ m assigned rest p pos, Holder s m assigned rest → Holds group m assigned p pos →
      Holds s.group m assigned p pos ∧ group.generation p = s.group.generation p)
    (hposition : ∀ p, (∃ m assigned rest pos, Holder s m assigned rest ∧
      Holds group m assigned p pos) → ∀ lo, From topic s p lo →
        ∀ o, group.committed p = some o → lo ≤ o) :
    Inv topic { s with group, requests } := by
  have hholder {m : M} {assigned : Assignment P} {rest : List (ConsumerRecord P K V)}
      (hh : Holder { s with group, requests } m assigned rest) : Holder s m assigned rest := by
    rcases hh with hm | ⟨hm, hrest⟩
    · exact .consumer hm
    · exact .request (hrequests hm) hrest
  refine ⟨?_, fun m assigned hm => h.started m assigned (hrequests hm), ?_, fun p => ?_⟩
  · intro m assigned rest p g pos hh hp
    exact Nat.le_trans (h.generation m assigned rest p g pos (hholder hh) hp) (hgen p)
  · intro m assigned c p pos hm hc hp
    obtain ⟨hp', heq⟩ := hholds m assigned [] p pos (.request (hrequests hm) rfl) hp
    obtain ⟨pos', -, hpos'⟩ := h.kept m assigned c p pos (hrequests hm) hc hp'
    exact ⟨pos', hp.1, heq ▸ hpos'⟩
  · by_cases hany : ∃ m assigned rest pos, Holder s m assigned rest ∧ Holds group m assigned p pos
    · obtain ⟨lo, hlo⟩ := h.position p
      refine ⟨lo, hlo.frame (fun _ => id) ?_ (hposition p hany lo hlo)⟩
      intro m assigned rest pos hh hp
      exact ⟨_, rest, hholder hh, (hholds m assigned rest p pos (hholder hh) hp).1, fun _ => .inr⟩
    · refine ⟨(group.committed p).getD 0, fun m assigned rest pos hh hp => ?_, fun o ho => ?_⟩
      · exact absurd ⟨m, assigned, rest, pos, hholder hh, hp⟩ hany
      · have hcommitted : group.committed p = some o := ho
        simp [hcommitted]

theorem Inv.commit {before after : List (M × Assignment P)} (h : Inv topic s)
    (hrequests : s.requests = before ++ (m, assigned) :: after)
    (haccepts : s.group.Accepts m assigned) :
    Inv topic { s with group := s.group.commit assigned, requests := before ++ after } := by
  have hmem : (m, assigned) ∈ s.requests := by simp [hrequests]
  apply h.fewer
  · rw [hrequests]
    simp
  · exact fun p => Nat.le_refl _
  · exact fun _ _ _ p pos _ hp => ⟨hp, rfl⟩
  · intro p _ lo hlo o ho
    cases ha : assigned p with
    | none =>
      rw [Group.commit_none ha] at ho
      exact hlo.committed o ho
    | some a =>
      obtain ⟨g, pos⟩ := a
      rw [Group.commit_some ha] at ho
      obtain ⟨howner, rfl⟩ := haccepts p g pos ha
      obtain rfl : pos = o := Option.some.inj ho
      exact (hlo.holder m assigned [] pos (.request hmem rfl) ⟨howner, ha⟩).1

theorem Inv.autoCommit (h : Inv topic s) (hm : s.process m = .up { assigned, rest := [] }) :
    Inv topic { s with requests := (m, assigned) :: s.requests } := by
  have hholder {m' : M} {assigned' : Assignment P} {rest : List (ConsumerRecord P K V)}
      (hh : Holder { s with requests := (m, assigned) :: s.requests } m' assigned' rest) :
      Holder s m' assigned' rest := by
    rcases hh with hc | ⟨hmem, rfl⟩
    · exact .consumer hc
    · rcases List.mem_cons.mp hmem with heq | hmem
      · obtain ⟨rfl, rfl⟩ := Prod.mk.inj heq
        exact .consumer hm
      · exact .request hmem rfl
  refine ⟨fun m' a r p g pos hh => h.generation m' a r p g pos (hholder hh), ?_, ?_, fun p => ?_⟩
  · intro m' assigned' hmem
    rcases List.mem_cons.mp hmem with heq | hmem
    · obtain ⟨rfl, rfl⟩ := Prod.mk.inj heq
      simp [hm]
    · exact h.started m' assigned' hmem
  · intro m' assigned' c p pos hmem hc hp
    rcases List.mem_cons.mp hmem with heq | hmem
    · obtain ⟨rfl, rfl⟩ := Prod.mk.inj heq
      have heq : Process.up c = .up { assigned := assigned', rest := [] } := hc.symm.trans hm
      cases heq
      exact ⟨pos, hp⟩
    · exact h.kept m' assigned' c p pos hmem hc hp
  · obtain ⟨lo, hlo⟩ := h.position p
    refine ⟨lo, hlo.frame (fun _ => id) ?_ hlo.committed⟩
    exact fun m' a rest pos hh hp => ⟨a, rest, hholder hh, hp, fun _ => .inr⟩

theorem Inv.assign [DecidableEq P] (h : Inv topic s) (p : P) (m : M) :
    Inv topic { s with group := { s.group with
      owner := Function.update s.group.owner p (some m)
      generation := Function.update s.group.generation p (s.group.generation p + 1) } } := by
  apply h.fewer (fun _ => id)
  · intro q
    rcases eq_or_ne q p with rfl | hq
    · simp
    · simp [hq]
  · rintro m' assigned rest q pos hh ⟨howner, hassigned⟩
    have hne : q ≠ p := by
      rintro rfl
      have hle := h.generation m' assigned rest q _ pos hh hassigned
      simp only [Function.update_self] at hle
      omega
    simp only [Function.update_of_ne hne] at howner hassigned
    exact ⟨⟨howner, hassigned⟩, Function.update_of_ne hne ..⟩
  · exact fun p _ lo hlo => hlo.committed

theorem Inv.revoke [DecidableEq P] (h : Inv topic s) (p : P) :
    Inv topic
      { s with group := { s.group with owner := Function.update s.group.owner p none } } := by
  apply h.fewer (fun _ => id)
  · exact fun _ => Nat.le_refl _
  · rintro m assigned rest q pos - ⟨howner, hassigned⟩
    have hne : q ≠ p := by
      rintro rfl
      simp at howner
    simp only [Function.update_of_ne hne] at howner
    exact ⟨⟨howner, hassigned⟩, rfl⟩
  · exact fun p _ lo hlo => hlo.committed

variable [DecidableEq M]

theorem Holder.of_set {process : Process P K V} {printed : List (M × ConsumerRecord P K V)}
    {m' : M} (h : Holder { s with process := Function.update s.process m process, printed }
      m' assigned rest) :
    (m' = m ∧ process = .up { assigned, rest }) ∨ Holder s m' assigned rest := by
  rcases h with hc | ⟨hmem, hrest⟩
  · rcases eq_or_ne m' m with rfl | hne
    · simp only [Function.update_self] at hc
      exact .inl ⟨rfl, hc⟩
    · simp only [Function.update_of_ne hne] at hc
      exact .inr (.consumer hc)
  · exact .inr (.request hmem hrest)

theorem Inv.set {process : Process P K V} {printed : List (M × ConsumerRecord P K V)}
    (h : Inv topic s) (hnew : process ≠ .new)
    (hup : ∀ c, process = .up c →
      (∀ p g pos, c.assigned p = some (g, pos) → g ≤ s.group.generation p) ∧
      ∀ assigned p pos, (m, assigned) ∈ s.requests → Holds s.group m assigned p pos →
        ∃ pos', Holds s.group m c.assigned p pos')
    (hposition : ∀ p, ∃ lo,
      From topic { s with process := Function.update s.process m process, printed } p lo) :
    Inv topic { s with process := Function.update s.process m process, printed } := by
  refine ⟨?_, ?_, ?_, hposition⟩
  · intro m' assigned rest p g pos hh ha
    rcases hh.of_set with ⟨-, rfl⟩ | hh
    · exact (hup _ rfl).1 p g pos ha
    · exact h.generation m' assigned rest p g pos hh ha
  · intro m' assigned hmem
    rcases eq_or_ne m' m with rfl | hne
    · simpa using hnew
    · simpa [hne] using h.started m' assigned hmem
  · intro m' assigned c p pos hmem hc hp
    rcases eq_or_ne m' m with rfl | hne
    · simp only [Function.update_self] at hc
      exact (hup c hc).2 assigned p pos hmem hp
    · simp only [Function.update_of_ne hne] at hc
      exact h.kept m' assigned c p pos hmem hc hp

theorem Inv.println {record : ConsumerRecord P K V} (h : Inv topic s)
    (hm : s.process m = .up { assigned, rest := record :: rest }) :
    Inv topic { s with
      process := Function.update s.process m (.up { assigned, rest })
      printed := s.printed ++ [(m, record)] } := by
  apply h.set (by simp)
  · rintro _ ⟨⟩
    refine ⟨fun p g pos => h.generation m assigned _ p g pos (.consumer hm), ?_⟩
    exact fun assigned' p pos hmem hp =>
      h.kept m assigned' ⟨assigned, record :: rest⟩ p pos hmem hm hp
  · intro p
    obtain ⟨lo, hlo⟩ := h.position p
    refine ⟨lo, hlo.frame ?_ ?_ hlo.committed⟩
    · intro r hr
      simp only [List.map_append, List.mem_append, hr, true_or]
    · intro m' assigned' rest' pos hh hp
      rcases hh.of_set with ⟨rfl, ⟨⟩⟩ | hh
      · refine ⟨_, _, .consumer hm, hp, fun r hr => ?_⟩
        rcases List.mem_cons.mp hr with rfl | hr
        · simp
        · exact .inr hr
      · exact ⟨_, _, hh, hp, fun _ => .inr⟩

theorem Inv.up (h : Inv topic s) (hm : s.process m = .new) :
    Inv topic (s.set m (.up { assigned := fun _ => none, rest := [] })) := by
  apply h.set (by simp)
  · rintro _ ⟨⟩
    exact ⟨nofun, fun assigned p pos hmem => absurd hm (h.started m assigned hmem)⟩
  · intro p
    obtain ⟨lo, hlo⟩ := h.position p
    refine ⟨lo, hlo.frame (fun _ => id) ?_ hlo.committed⟩
    intro m' assigned' rest' pos hh hp
    rcases hh.of_set with ⟨rfl, ⟨⟩⟩ | hh
    · cases hp.2
    · exact ⟨_, _, hh, hp, fun _ => .inr⟩

theorem Inv.crash (h : Inv topic s) (m : M) : Inv topic (s.set m .down) := by
  apply h.set (by simp)
  · exact nofun
  · intro p
    obtain ⟨lo, hlo⟩ := h.position p
    refine ⟨lo, hlo.frame (fun _ => id) ?_ hlo.committed⟩
    intro m' assigned' rest' pos hh hp
    rcases hh.of_set with ⟨-, ⟨⟩⟩ | hh
    exact ⟨_, _, hh, hp, fun _ => .inr⟩

theorem Inv.rebalance (h : Inv topic s) (hm : s.process m = .up { assigned, rest := [] }) :
    Inv topic (s.set m (.up { assigned := s.group.rebalance m assigned, rest := [] })) := by
  apply h.set (by simp)
  · rintro _ ⟨⟩
    refine ⟨fun p g pos ha => Nat.le_of_eq (Group.rebalance_some ha).1.2.symm, ?_⟩
    intro assigned' p pos hmem hp
    obtain ⟨pos', heq, -⟩ := rebalance_held hp.1
    exact ⟨pos', hp.1, heq⟩
  · intro p
    obtain ⟨lo, hlo⟩ := h.position p
    by_cases hfresh : s.group.owner p = some m ∧
        ∀ pos, assigned p ≠ some (s.group.generation p, pos)
    · obtain ⟨howner, hfresh⟩ := hfresh
      refine ⟨s.group.resume p, ?_, fun o (ho : s.group.committed p = some o) =>
        Nat.le_of_eq (by simp [Group.resume, ho])⟩
      rintro m' assigned' rest pos hh ⟨howner', ha⟩
      obtain rfl : m = m' := Option.some.inj (howner.symm.trans howner')
      rcases hh with hc | ⟨hmem, rfl⟩
      · simp only [Function.update_self] at hc
        cases hc
        obtain ⟨pos', heq, hpos⟩ := rebalance_held howner
        obtain ⟨-, rfl⟩ := Prod.mk.inj (Option.some.inj (heq.symm.trans ha))
        rcases hpos with hpos | ⟨rfl, -⟩
        · exact absurd hpos (hfresh _)
        · exact ⟨Nat.le_refl _, fun r _ hlow hhigh => by omega⟩
      · obtain ⟨pos', -, ha'⟩ := h.kept m assigned' _ p pos hmem hm ⟨howner', ha⟩
        exact absurd ha' (hfresh pos')
    · refine ⟨lo, hlo.frame (fun _ => id) ?_ hlo.committed⟩
      rintro m' assigned' rest' pos hh hp
      rcases hh.of_set with ⟨rfl, ⟨⟩⟩ | hh
      · refine ⟨assigned, [], .consumer hm, ⟨hp.1, ?_⟩, by simp⟩
        obtain ⟨pos', heq, hpos⟩ := rebalance_held hp.1
        obtain ⟨-, rfl⟩ := Prod.mk.inj (Option.some.inj (heq.symm.trans hp.2))
        rcases hpos with hpos | ⟨-, hpos⟩
        · exact hpos
        · exact absurd ⟨hp.1, hpos⟩ hfresh
      · exact ⟨_, _, hh, hp, fun _ => .inr⟩

theorem Inv.poll {assigned' : Assignment P} {records : ConsumerRecords P K V} (h : Inv topic s)
    (hm : s.process m = .up { assigned, rest := [] })
    (hp : Polled topic s.group assigned records assigned') :
    Inv topic (s.set m (.up { assigned := assigned', rest := records.all })) := by
  apply h.set (by simp)
  · rintro _ ⟨⟩
    constructor
    · intro p g pos' ha
      obtain ⟨pos, hpos, -⟩ := hp.assigned_some ha
      exact h.generation m assigned [] p g pos (.consumer hm) hpos
    · intro assigned'' p pos hmem hholds
      obtain ⟨pos', howner, ha⟩ := h.kept m assigned'' ⟨assigned, []⟩ p pos hmem hm hholds
      exact ⟨_, howner, by simpa only [hp.2.2, Option.map_eq_some_iff] using ⟨_, ha, rfl⟩⟩
  · intro p
    obtain ⟨lo, hlo⟩ := h.position p
    refine ⟨lo, ?_, hlo.committed⟩
    intro m' a rest pos' hh hholds
    rcases hh.of_set with ⟨rfl, ⟨⟩⟩ | hh
    · obtain ⟨pos, hpos, hle⟩ := hp.assigned_some hholds.2
      obtain ⟨hlow, hshown⟩ := hlo.holder m' assigned [] pos (.consumer hm) ⟨hholds.1, hpos⟩
      refine ⟨Nat.le_trans hlow hle, fun r hr hlo' hhi => ?_⟩
      rcases Nat.lt_or_ge r.offset pos with hold | hnew
      · exact .inl ((hshown r hr hlo' hold).resolve_right (by simp))
      · exact .inr (polled_between hp hpos hholds.2 hr hnew hhi)
    · exact hlo.holder m' a rest pos' hh hholds

theorem Inv.step [DecidableEq P] {event : Event} (h : Inv topic s) (hstep : Step topic s event t) :
    Inv topic t := by
  have hless {m : M} {assigned : Assignment P} {before after : List (M × Assignment P)}
      (hrequests : s.requests = before ++ (m, assigned) :: after) :
      Inv topic { s with requests := before ++ after } := by
    apply h.fewer
    · rw [hrequests]
      simp
    · exact fun _ => Nat.le_refl _
    · exact fun _ _ _ _ _ _ hp => ⟨hp, rfl⟩
    · exact fun p _ lo hlo => hlo.committed
  cases hstep with
  | produce =>
    apply h.fewer (fun _ => id)
    · exact fun _ => Nat.le_refl _
    · exact fun _ _ _ _ _ _ hp => ⟨hp, rfl⟩
    · exact fun p _ lo hlo => hlo.committed
  | assign => exact h.assign _ _
  | revoke => exact h.revoke _
  | start hm => exact h.up hm
  | rebalance hm => exact h.rebalance hm
  | autoCommit hm => exact h.autoCommit hm
  | poll hm hp => exact h.poll hm hp
  | println hm => exact h.println hm
  | crash => exact h.crash _
  | committed hrequests haccepts => exact h.commit hrequests haccepts
  | refused hrequests => exact hless hrequests
  | lost hrequests => exact hless hrequests

theorem Inv.reachable [DecidableEq P] (h : (system M topic).Reachable s) : Inv topic s :=
  h.invariant (Inv topic) (fun _ => Inv.start) fun _ _ _ => Inv.step

/-! ## From a committed offset on -/

/-- `p` has a committed offset, and everything from `base` up to it is printed. -/
def SkipsNothing (topic : Topic P K V) (base : Nat) (p : P) (s : State P K V M) : Prop :=
  ∃ o, s.group.committed p = some o ∧ PrintedBetween topic s p base o

omit [DecidableEq M] in
theorem SkipsNothing.commit {base : Nat} {before after : List (M × Assignment P)}
    (h : SkipsNothing topic base p s) (hinv : Inv topic s)
    (hrequests : s.requests = before ++ (m, assigned) :: after)
    (haccepts : s.group.Accepts m assigned) :
    SkipsNothing topic base p
      { s with group := s.group.commit assigned, requests := before ++ after } := by
  obtain ⟨o, ho, hprinted⟩ := h
  cases ha : assigned p with
  | none => exact ⟨o, (Group.commit_none ha).trans ho, hprinted⟩
  | some a =>
    obtain ⟨g, pos⟩ := a
    obtain ⟨howner, rfl⟩ := haccepts p g pos ha
    obtain ⟨lo, hlo⟩ := hinv.position p
    obtain ⟨-, hshown⟩ := hlo.holder m assigned [] pos
      (.request (by simp [hrequests]) rfl) ⟨howner, ha⟩
    refine ⟨pos, Group.commit_some ha, fun r hr hlow hhigh => ?_⟩
    -- what is not below the old offset is past `lo`
    rcases Nat.lt_or_ge r.offset o with hold | hnew
    · exact hprinted r hr hlow hold
    · exact (hshown r hr (Nat.le_trans (hlo.committed o ho) hnew) hhigh).resolve_right (by simp)

theorem SkipsNothing.step [DecidableEq P] {base : Nat} {event : Event}
    (h : SkipsNothing topic base p s) (hinv : Inv topic s) (hstep : Step topic s event t) :
    SkipsNothing topic base p t := by
  cases hstep with
  | committed hrequests haccepts => exact h.commit hinv hrequests haccepts
  | println =>
    obtain ⟨o, ho, hprinted⟩ := h
    refine ⟨o, ho, fun r hr hlow hhigh => ?_⟩
    simp only [List.map_append, List.mem_append]
    exact .inl (hprinted r hr hlow hhigh)
  | _ => exact h

/-- From when an offset is committed for a partition, no record is skipped: at any later time,
whoever crashed and whatever was reassigned, some member has printed every record from there up
to the offset that is committed then. -/
theorem skips_nothing [DecidableEq P] {base : Nat} {events : List Event}
    (h : (system M topic).Reachable s) (hbase : s.group.committed p = some base)
    (hrun : (system M topic).Run s events t) : SkipsNothing topic base p t := by
  refine hrun.invariant (SkipsNothing topic base p) ?_ h ⟨base, hbase, fun r _ hlow hhigh => ?_⟩
  · exact fun _ _ _ hs hskips hstep => hskips.step (Inv.reachable hs) hstep
  · omega

/-! ## Two records -/

def twoRecords : Topic Unit Unit Nat where
  log _ := [⟨(), 0, (), 10⟩, ⟨(), 1, (), 11⟩]
  increasing _ := by simp [Increasing]
  partition _ := by simp

def both : ConsumerRecords Unit Unit Nat where
  partitions := [()]
  records := twoRecords.log
  nodup := List.nodup_singleton ()
  mem_partitions _ := by simp [twoRecords]

/-- A group that has committed 0, and whose owner of the partition is member 0. -/
def twoStart : State Unit Unit Nat Nat where
  group := {
    committed := fun _ => some 0
    logEnd := fun _ => 2
    owner := fun _ => some 0
    generation := fun _ => 1 }
  process := fun _ => .new
  requests := []
  printed := []

theorem polled_both : Polled twoRecords twoStart.group (fun _ => some (1, 0)) both
    (fun _ => some (1, 2)) := by
  refine ⟨fun p => ?_, nofun, ?_⟩
  · simp [both, twoRecords, twoStart, Topic.upTo, since, position]
  · funext p
    simp [both, twoRecords, advance]

theorem skips_nothing_two : ∃ events t, (system Nat twoRecords).Run twoStart events t ∧
    t.process 0 = .down ∧ t.group.committed () = some 2 ∧ SkipsNothing twoRecords 0 () t := by
  have hstart : (system Nat twoRecords).Reachable twoStart := .start ⟨fun _ => rfl, rfl, rfl⟩
  have hcommit {s : State Unit Unit Nat Nat} (hgroup : s.group = twoStart.group)
      (hrequests : s.requests = [(0, fun _ => some (1, 2))]) : Step twoRecords s .committed
        { s with group := s.group.commit fun _ => some (1, 2), requests := [] } := by
    refine .committed (m := 0) (hrequests.trans (List.nil_append _).symm) ?_
    rintro _ _ _ ⟨⟩
    rw [hgroup]
    exact ⟨rfl, rfl⟩
  have hrun : ∃ events t, (system Nat twoRecords).Run twoStart events t ∧
      t.process 0 = .down ∧ t.group.committed () = some 2 :=
    ⟨_, _, .cons (.start (m := 0) rfl) <| .cons (.rebalance (m := 0) rfl) <|
      .cons (.poll (m := 0) rfl polled_both) <| .cons (.println (m := 0) rfl) <|
      .cons (.println (m := 0) rfl) <| .cons (.autoCommit (m := 0) rfl) <|
      .cons (.crash (m := 0) rfl) <| .cons (hcommit rfl rfl) <| .nil _, rfl, rfl⟩
  obtain ⟨events, t, hrun, hdown, hcommitted⟩ := hrun
  exact ⟨events, t, hrun, hdown, hcommitted, skips_nothing hstart rfl hrun⟩

end Nsds.Kafka.BasicConsumer
