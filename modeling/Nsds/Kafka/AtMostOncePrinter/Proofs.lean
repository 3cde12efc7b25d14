import Nsds.Kafka.AtMostOncePrinter.Code
import Nsds.Lib.Handout

/-!
# At most once, and nothing lost without a crash

What a member prints is committed, and what is polled after a commit comes later in
its partition. So no record can come to two members, or twice to one.
-/

namespace Nsds.Kafka.AtMostOncePrinter

open Transition Handout

variable {P K M : Type}

/-! ## What is committed before it is printed -/

/-- Polled and committed, but not printed. -/
def toPrint : Option (Consumer P K) → List (ConsumerRecord P K (Option Int))
  | some ⟨_, .print rest⟩ => rest
  | _ => []

/-- What each member may yet print. -/
def State.pending (s : State P K M) : M → List (ConsumerRecord P K (Option Int)) :=
  toPrint ∘ s.consumer

/-- A record below the committed offset. -/
def Settled (group : Group P M) (r : ConsumerRecord P K (Option Int)) : Prop :=
  ∃ o, group.committed r.partition = some o ∧ r.offset < o

/-- What holds of a member as long as the partition in question is its own. -/
structure ConsumerOk (group : Group P M) (m : M) (c : Consumer P K) : Prop where
  generation : ∀ p g pos, c.assigned p = some (g, pos) → g ≤ group.generation p
  position : ∀ p g pos, c.assigned p = some (g, pos) → group.Current m p g →
    ∀ o, group.committed p = some o → o ≤ pos
  nodup : ∀ records, c.pc = .commitSync records → (records.all.map key).Nodup
  batch : ∀ records, c.pc = .commitSync records → ∀ r ∈ records.all,
    ∃ g pos, c.assigned r.partition = some (g, pos) ∧ r.offset < pos ∧
      (group.Current m r.partition g →
        ∀ o, group.committed r.partition = some o → o ≤ r.offset)

/-- What is printed or about to be is settled, and each record is in one place. -/
structure Inv (s : State P K M) : Prop where
  consumer : ∀ m c, s.consumer m = some c → ConsumerOk s.group m c
  once : Once key (s.printed.map Prod.snd) s.pending
  printed_settled : ∀ e ∈ s.printed, Settled s.group e.2
  pending_settled : ∀ m, ∀ r ∈ s.pending m, Settled s.group r
  overThreshold : ∀ e ∈ s.printed, ∃ value, e.2.value = some value ∧ value > threshold

variable {topic : Topic P K (Option Int)} {s t : State P K M} {group group' : Group P M} {m : M}
  {c : Consumer P K} {e : Event}

theorem pending_of {rest : List (ConsumerRecord P K (Option Int))} {assigned : Assignment P}
    (hm : s.consumer m = some ⟨assigned, .print rest⟩) : s.pending m = rest := by
  unfold State.pending
  rw [Function.comp_apply, hm]
  rfl

theorem ConsumerOk.frame (h : ConsumerOk group m c)
    (hgen : ∀ p, group.generation p ≤ group'.generation p)
    (hcur : ∀ p g pos, c.assigned p = some (g, pos) → group'.Current m p g →
      group.Current m p g ∧ group'.committed p = group.committed p) : ConsumerOk group' m c where
  generation p g pos ha := Nat.le_trans (h.generation p g pos ha) (hgen p)
  position p g pos ha hc o ho := by
    obtain ⟨hcur, heq⟩ := hcur p g pos ha hc
    exact h.position p g pos ha hcur o (heq ▸ ho)
  nodup := h.nodup
  batch records hpc r hr := by
    obtain ⟨g, pos, ha, hlt, hlow⟩ := h.batch records hpc r hr
    refine ⟨g, pos, ha, hlt, fun hc o ho => ?_⟩
    obtain ⟨hcur, heq⟩ := hcur _ g pos ha hc
    exact hlow hcur o (heq ▸ ho)

theorem ConsumerOk.of_generation {assigned : Assignment P} {pc : Pc P K}
    (hpc : ∀ records, pc ≠ .commitSync records)
    (hgen : ∀ p g pos, assigned p = some (g, pos) → g ≤ group.generation p)
    (hpos : ∀ p g pos, assigned p = some (g, pos) → group.Current m p g →
      ∀ o, group.committed p = some o → o ≤ pos) : ConsumerOk group m ⟨assigned, pc⟩ :=
  ⟨hgen, hpos, fun _ h => absurd h (hpc _), fun _ h => absurd h (hpc _)⟩

theorem ConsumerOk.commit_settled {assigned : Assignment P} {pc : Pc P K}
    (hok : ConsumerOk group m ⟨assigned, pc⟩) (ha : group.Accepts m assigned)
    (r : ConsumerRecord P K (Option Int)) (hr : Settled group r) :
    Settled (group.commit assigned) r := by
  obtain ⟨o, ho, hlt⟩ := hr
  cases hp : assigned r.partition with
  | none => exact ⟨o, by rw [Group.commit_none hp, ho], hlt⟩
  | some a =>
    have := hok.position _ _ _ hp (ha _ _ _ hp) o ho
    exact ⟨a.2, Group.commit_some hp, by omega⟩

theorem ConsumerOk.rebalance [DecidableEq M] {assigned : Assignment P}
    (hok : ConsumerOk group m (⟨assigned, .poll⟩ : Consumer P K)) :
    ConsumerOk group m (⟨group.rebalance m assigned, .poll⟩ : Consumer P K) := by
  refine .of_generation (fun _ h => by cases h) ?_ ?_
  · intro p g pos hp
    exact Nat.le_of_eq (Group.rebalance_some hp).1.2.symm
  · intro p g pos hp hc o ho
    rcases (Group.rebalance_some hp).2 with hkept | rfl
    · exact hok.position p g pos hkept hc o ho
    · exact Group.le_resume ho

theorem ConsumerOk.poll [DecidableEq P] {assigned assigned' : Assignment P}
    {records : ConsumerRecords P K (Option Int)}
    (hok : ConsumerOk group m (⟨assigned, .poll⟩ : Consumer P K))
    (hp : Polled topic group assigned records assigned') :
    ConsumerOk group m ⟨assigned', .commitSync records⟩ := by
  constructor
  · intro p g pos' ha
    obtain ⟨pos, hpos, -⟩ := hp.assigned_some ha
    exact hok.generation p g pos hpos
  · intro p g pos' ha hc o ho
    obtain ⟨pos, hpos, hle⟩ := hp.assigned_some ha
    exact Nat.le_trans (hok.position p g pos hpos hc o ho) hle
  · rintro _ hpc
    cases hpc
    exact hp.nodup
  · rintro _ hpc r hr
    cases hpc
    obtain ⟨g, pos, pos', hpos, hpos', hlow, hhigh⟩ := hp.mem hr
    refine ⟨g, pos', hpos', hhigh, fun hc o ho => ?_⟩
    exact Nat.le_trans (hok.position _ g pos hpos hc o ho) hlow

theorem Inv.polled (h : Inv s) (polled : M → List (ConsumerRecord P K (Option Int))) :
    Inv { s with polled := polled } :=
  ⟨h.consumer, h.once, h.printed_settled, h.pending_settled, h.overThreshold⟩

theorem Inv.setGroup (h : Inv s) (hcommitted : group'.committed = s.group.committed)
    (hgen : ∀ p, s.group.generation p ≤ group'.generation p)
    (hcur : ∀ m p g, g ≤ s.group.generation p → group'.Current m p g → s.group.Current m p g) :
    Inv { s with group := group' } where
  consumer m c hm := by
    have hok := h.consumer m c hm
    exact hok.frame hgen fun p g pos ha hc =>
      ⟨hcur m p g (hok.generation p g pos ha) hc, by rw [hcommitted]⟩
  once := h.once
  printed_settled e he := by
    obtain ⟨o, ho, hlt⟩ := h.printed_settled e he
    exact ⟨o, hcommitted ▸ ho, hlt⟩
  pending_settled m r hr := by
    obtain ⟨o, ho, hlt⟩ := h.pending_settled m r hr
    exact ⟨o, hcommitted ▸ ho, hlt⟩
  overThreshold := h.overThreshold

variable [DecidableEq M]

theorem forall_set {q : M → Consumer P K → Prop} {c : Option (Consumer P K)}
    (hother : ∀ m' c', m' ≠ m → s.consumer m' = some c' → q m' c')
    (hc : ∀ c', c = some c' → q m c') : ∀ m' c', (s.set m c).consumer m' = some c' → q m' c' := by
  intro m' c' hm'
  unfold State.set at hm'
  rcases eq_or_ne m' m with rfl | hne
  · simp only [Function.update_self] at hm'
    exact hc c' hm'
  · simp only [Function.update_of_ne hne] at hm'
    exact hother m' c' hne hm'

theorem pending_set (c : Option (Consumer P K)) :
    (s.set m c).pending = Function.update s.pending m (toPrint c) :=
  Function.comp_update toPrint s.consumer m c

theorem Inv.set (h : Inv s) {c : Option (Consumer P K)}
    (hc : ∀ c', c = some c' → ConsumerOk s.group m c')
    (hrest : List.Sublist (toPrint c) (s.pending m)) : Inv (s.set m c) where
  consumer := forall_set (fun m' c' _ => h.consumer m' c') hc
  once := by
    have := h.once.drop hrest
    rwa [← pending_set] at this
  printed_settled := h.printed_settled
  pending_settled m' r hr := by
    rw [pending_set] at hr
    rcases eq_or_ne m' m with rfl | hne
    · rw [Function.update_self] at hr
      exact h.pending_settled m' r (hrest.subset hr)
    · rw [Function.update_of_ne hne] at hr
      exact h.pending_settled m' r hr
  overThreshold := h.overThreshold

theorem Inv.commitSync (h : Inv s) {assigned : Assignment P}
    {records : ConsumerRecords P K (Option Int)}
    (hm : s.consumer m = some ⟨assigned, .commitSync records⟩) (ha : s.group.Accepts m assigned) :
    Inv { s.set m (some ⟨assigned, .print records.all⟩) with
      group := s.group.commit assigned } := by
  have hok := h.consumer m _ hm
  have hsettled := hok.commit_settled ha
  have hnew : ∀ r ∈ records.all, ∀ r' : ConsumerRecord P K (Option Int),
      Settled s.group r' → key r ≠ key r' := by
    rintro r hr r' ⟨o, ho, hlt⟩ heq
    obtain ⟨hpart, hoffset⟩ := Prod.mk.inj heq
    obtain ⟨g, pos, hp, -, hlow⟩ := hok.batch records rfl r hr
    have := hlow (ha _ _ _ hp) o (hpart ▸ ho)
    omega
  have honce : Once key (s.printed.map Prod.snd) (Function.update s.pending m records.all) := by
    apply h.once.update (hok.nodup records rfl)
    · exact fun j _ r hr r' hr' => hnew r hr r' (h.pending_settled j r' hr')
    · intro r hr r' hr'
      obtain ⟨e, he, rfl⟩ := List.mem_map.mp hr'
      exact hnew r hr e.2 (h.printed_settled e he)
  have hpending : (s.set m (some ⟨assigned, .print records.all⟩)).pending =
      Function.update s.pending m records.all := pending_set _
  constructor
  · apply forall_set
    · intro m' c' hne hm'
      refine (h.consumer m' c' hm').frame (fun _ => Nat.le_refl _) fun p g pos _ hc => ⟨hc, ?_⟩
      -- The partition is not one of those that `m` commits.
      apply Group.commit_none
      cases hp : assigned p with
      | none => rfl
      | some a =>
        have howner : s.group.owner p = some m' := hc.1
        rw [(ha p a.1 a.2 hp).1] at howner
        exact absurd (Option.some.inj howner).symm hne
    · rintro c' hc'
      cases hc'
      refine .of_generation (fun _ h => by cases h) hok.generation ?_
      intro p g pos hp _ o ho
      rw [Group.commit_some hp] at ho
      exact Nat.le_of_eq (Option.some.inj ho).symm
  · rwa [← hpending] at honce
  · exact fun e he => hsettled _ (h.printed_settled e he)
  · intro m' r hr
    change r ∈ (s.set m _).pending m' at hr
    rw [hpending] at hr
    rcases eq_or_ne m' m with rfl | hne
    · rw [Function.update_self] at hr
      obtain ⟨g, pos, hp, hlt, -⟩ := hok.batch records rfl r hr
      exact ⟨pos, Group.commit_some hp, hlt⟩
    · rw [Function.update_of_ne hne] at hr
      exact hsettled _ (h.pending_settled m' r hr)
  · exact h.overThreshold

theorem Inv.print (h : Inv s) {assigned : Assignment P}
    {record : ConsumerRecord P K (Option Int)} {rest : List (ConsumerRecord P K (Option Int))}
    {value : Int} (hm : s.consumer m = some ⟨assigned, .print (record :: rest)⟩)
    (hv : record.value = some value) :
    Inv { s.set m (some ⟨assigned, .print rest⟩) with
      printed := if value > threshold then s.printed ++ [(m, record)] else s.printed } := by
  have hpending := pending_of hm
  have hsub : List.Sublist rest (s.pending m) := hpending ▸ List.sublist_cons_self record rest
  have hset : Inv (s.set m (some ⟨assigned, .print rest⟩)) := by
    refine h.set ?_ hsub
    rintro c' hc'
    cases hc'
    exact .of_generation (fun _ h => by cases h) (h.consumer m _ hm).generation
      (h.consumer m _ hm).position
  split
  case isFalse => exact hset
  case isTrue hover =>
    have honce := h.once.finish hpending
    have hrecord : record ∈ s.pending m := hpending ▸ List.mem_cons_self
    constructor
    · exact hset.consumer
    · rw [List.map_append]
      have hset : (s.set m (some ⟨assigned, .print rest⟩)).pending =
          Function.update s.pending m rest := pending_set _
      rwa [← hset] at honce
    · intro e he
      rcases List.mem_append.mp he with he | he
      · exact h.printed_settled e he
      · rw [List.mem_singleton.mp he]
        exact h.pending_settled m record hrecord
    · exact hset.pending_settled
    · intro e he
      rcases List.mem_append.mp he with he | he
      · exact h.overThreshold e he
      · rw [List.mem_singleton.mp he]
        exact ⟨value, hv, hover⟩

theorem Inv.step [DecidableEq P] (h : Inv s) (hstep : Step topic s e t) : Inv t := by
  cases hstep with
  | produce p n hn =>
    apply h.setGroup
    · rfl
    · exact fun _ => Nat.le_refl _
    · exact fun _ _ _ _ hc => hc
  | assign p m hfree =>
    apply h.setGroup
    · rfl
    · intro q
      rcases eq_or_ne q p with rfl | hq
      · simp
      · simp [hq]
    · rintro m' q g hg ⟨howner, hgen⟩
      rcases eq_or_ne q p with rfl | hq
      · simp only [Function.update_self] at hgen
        omega
      · exact ⟨by simpa [hq] using howner, by simpa [hq] using hgen⟩
  | revoke p =>
    apply h.setGroup
    · rfl
    · exact fun _ => Nat.le_refl _
    · rintro m' q g - ⟨howner, hgen⟩
      rcases eq_or_ne q p with rfl | hq
      · simp at howner
      · exact ⟨by simpa [hq] using howner, hgen⟩
  | start m hm =>
    apply h.set
    · rintro c' hc'
      cases hc'
      exact .of_generation (fun _ h => by cases h) (fun _ _ _ h => by cases h)
        fun _ _ _ h => by cases h
    · exact List.nil_sublist _
  | rebalance m assigned hm =>
    apply h.set
    · rintro c' hc'
      cases hc'
      exact (h.consumer m _ hm).rebalance
    · exact List.nil_sublist _
  | poll m assigned assigned' records hm hp =>
    refine (h.set ?_ ?_).polled _
    · rintro c' hc'
      cases hc'
      exact (h.consumer m _ hm).poll hp
    · exact List.nil_sublist _
  | commitSync m assigned records hm ha => exact h.commitSync hm ha
  | commitFailed m assigned records hm ha =>
    exact h.set (fun _ hc' => by cases hc') (List.nil_sublist _)
  | print m assigned record rest value hm hv => exact h.print hm hv
  | nullValue m assigned record rest hm hv =>
    exact h.set (fun _ hc' => by cases hc') (List.nil_sublist _)
  | again m assigned hm =>
    apply h.set
    · rintro c' hc'
      cases hc'
      exact .of_generation (fun _ h => by cases h) (h.consumer m _ hm).generation
        (h.consumer m _ hm).position
    · exact List.nil_sublist _
  | crash m c hm =>
    exact h.set (fun _ hc' => by cases hc') (List.nil_sublist _)

theorem Inv.reachable [DecidableEq P] (h : (system M topic).Reachable s) : Inv s := by
  apply h.invariant Inv
  · rintro s ⟨hdown, hprinted, -⟩
    have hpending : s.pending = fun _ => [] := by
      funext m
      rw [State.pending, Function.comp_apply, hdown m]
      rfl
    constructor
    · exact fun m c hm => by rw [hdown m] at hm; cases hm
    · rw [hprinted, hpending]
      exact Once.nil
    · exact fun e he => by rw [hprinted] at he; cases he
    · exact fun m r hr => by rw [hpending] at hr; cases hr
    · exact fun e he => by rw [hprinted] at he; cases he
  · exact fun s e t hs hstep => hs.step hstep

/-! ## Without crashes and reassignments -/

/-- No crash, no null value and no reassignment. -/
def Undisturbed (_ : State P K M) (e : Event) : Prop :=
  e ≠ .crash ∧ e ≠ .nullValue ∧ e ≠ .revoke

def overThreshold (r : ConsumerRecord P K (Option Int)) : Bool :=
  match r.value with
  | some value => value > threshold
  | none => false

/-- Polled, but the `for` loop has not come to it. -/
def unprinted : Option (Consumer P K) → List (ConsumerRecord P K (Option Int))
  | some ⟨_, .commitSync records⟩ => records.all
  | some ⟨_, .print rest⟩ => rest
  | _ => []

def State.printedBy (s : State P K M) (m : M) : List (ConsumerRecord P K (Option Int)) :=
  (s.printed.filter fun e => e.1 = m).map Prod.snd

/-- Nothing that a member has polled is lost. -/
structure Complete (s : State P K M) : Prop where
  owned : ∀ m c, s.consumer m = some c → s.group.Accepts m c.assigned
  printed : ∀ m, s.printedBy m ++ (unprinted (s.consumer m)).filter overThreshold =
    (s.polled m).filter overThreshold

theorem Complete.set (h : Complete s) {c : Option (Consumer P K)}
    (hc : ∀ c', c = some c' → s.group.Accepts m c'.assigned)
    (hrest : unprinted c = unprinted (s.consumer m)) : Complete (s.set m c) where
  owned := forall_set (fun m' c' _ => h.owned m' c') hc
  printed m' := by
    change s.printedBy m' ++
      (unprinted (Function.update s.consumer m c m')).filter overThreshold = _
    rcases eq_or_ne m' m with rfl | hne
    · rw [Function.update_self, hrest]
      exact h.printed m'
    · rw [Function.update_of_ne hne]
      exact h.printed m'

theorem Complete.setGroup (h : Complete s)
    (hcur : ∀ m p g, s.group.Current m p g → group'.Current m p g) :
    Complete { s with group := group' } where
  owned m c hm p g pos ha := hcur m p g (h.owned m c hm p g pos ha)
  printed := h.printed

theorem Complete.poll (h : Complete s) {assigned assigned' : Assignment P}
    {records : ConsumerRecords P K (Option Int)} (hm : s.consumer m = some ⟨assigned, .poll⟩)
    (hp : Polled topic s.group assigned records assigned') :
    Complete { s.set m (some ⟨assigned', .commitSync records⟩) with
      polled := Function.update s.polled m (s.polled m ++ records.all) } where
  owned := by
    apply forall_set (fun m' c' _ => h.owned m' c')
    rintro c' hc' p g pos' ha
    cases hc'
    obtain ⟨pos, hpos, -⟩ := hp.assigned_some ha
    exact h.owned m _ hm p g pos hpos
  printed m' := by
    change s.printedBy m' ++ (unprinted (Function.update s.consumer m _ m')).filter overThreshold =
      (Function.update s.polled m _ m').filter overThreshold
    rcases eq_or_ne m' m with rfl | hne
    · have heq := h.printed m'
      rw [hm] at heq
      rw [Function.update_self, Function.update_self, List.filter_append, ← heq]
      simp [unprinted]
    · rw [Function.update_of_ne hne, Function.update_of_ne hne]
      exact h.printed m'

theorem Complete.print (h : Complete s) {assigned : Assignment P}
    {record : ConsumerRecord P K (Option Int)} {rest : List (ConsumerRecord P K (Option Int))}
    {value : Int} (hm : s.consumer m = some ⟨assigned, .print (record :: rest)⟩)
    (hv : record.value = some value) :
    Complete { s.set m (some ⟨assigned, .print rest⟩) with
      printed := if value > threshold then s.printed ++ [(m, record)] else s.printed } where
  owned := by
    apply forall_set (fun m' c' _ => h.owned m' c')
    rintro c' hc'
    cases hc'
    exact h.owned m ⟨assigned, .print (record :: rest)⟩ hm
  printed m' := by
    have hover : overThreshold record = decide (value > threshold) := by simp [overThreshold, hv]
    have heq := h.printed m'
    unfold State.printedBy at heq ⊢
    change _ ++ (unprinted (Function.update s.consumer m _ m')).filter overThreshold =
      (s.polled m').filter overThreshold
    rcases eq_or_ne m' m with rfl | hne
    · rw [hm] at heq
      rw [Function.update_self]
      rw [← heq]
      simp only [unprinted, List.filter_cons, hover]
      split <;> simp_all
    · rw [Function.update_of_ne hne]
      split
      · simpa [hne.symm] using heq
      · exact heq

variable [DecidableEq P]

theorem Complete.step (h : Complete s) (hok : Undisturbed s e) (hstep : Step topic s e t) :
    Complete t := by
  cases hstep with
  | produce p n hn => exact h.setGroup fun _ _ _ hc => hc
  | assign p m hfree =>
    apply h.setGroup
    rintro m' q g ⟨howner, hgen⟩
    have hq : q ≠ p := by
      rintro rfl
      rw [hfree] at howner
      cases howner
    exact ⟨by simpa [hq] using howner, by simpa [hq] using hgen⟩
  | revoke p => exact absurd rfl hok.2.2
  | start m hm =>
    apply h.set
    · rintro c' hc'
      cases hc'
      exact fun _ _ _ ha => by cases ha
    · rw [hm]
      rfl
  | rebalance m assigned hm =>
    apply h.set
    · rintro c' hc'
      cases hc'
      exact fun p g pos ha => (Group.rebalance_some ha).1
    · rw [hm]
      rfl
  | poll m assigned assigned' records hm hp => exact h.poll hm hp
  | commitSync m assigned records hm ha =>
    have hset : Complete (s.set m (some ⟨assigned, .print records.all⟩)) := by
      apply h.set
      · rintro c' hc'
        cases hc'
        exact ha
      · rw [hm]
        rfl
    exact hset.setGroup fun _ _ _ hc => hc
  | commitFailed m assigned records hm ha => exact absurd (h.owned m _ hm) ha
  | print m assigned record rest value hm hv => exact h.print hm hv
  | nullValue => exact absurd rfl hok.2.1
  | again m assigned hm =>
    apply h.set
    · rintro c' hc'
      cases hc'
      exact h.owned m ⟨assigned, .print []⟩ hm
    · rw [hm]
      rfl
  | crash => exact absurd rfl hok.1

theorem Complete.reachable (h : ((system M topic).restrict Undisturbed).Reachable s) :
    Complete s := by
  apply h.invariant Complete
  · rintro s ⟨hdown, hprinted, hpolled⟩
    constructor
    · exact fun m c hm => by rw [hdown m] at hm; cases hm
    · intro m
      simp [State.printedBy, hprinted, hpolled, hdown m, unprinted]
  · exact fun s e t hs hstep => hs.step hstep.1 hstep.2

theorem print_rest {rest : List (ConsumerRecord P K (Option Int))} {assigned : Assignment P}
    (h : ((system M topic).restrict Undisturbed).Reachable s)
    (hm : s.consumer m = some ⟨assigned, .print rest⟩) (hvalue : ∀ r ∈ rest, r.value ≠ none) :
    ∃ t, ((system M topic).restrict Undisturbed).Reachable t ∧ t.polled = s.polled ∧
      t.consumer m = some ⟨assigned, .poll⟩ := by
  induction rest generalizing s with
  | nil =>
    exact ⟨_, h.step ⟨by simp [Undisturbed], .again s m assigned hm⟩, rfl,
      Function.update_self _ _ _⟩
  | cons record rest ih =>
    obtain ⟨value, hv⟩ := Option.ne_none_iff_exists'.mp (hvalue record List.mem_cons_self)
    have hstep := h.step ⟨by simp [Undisturbed], .print s m assigned record rest value hm hv⟩
    obtain ⟨t, ht, hpolled, hpoll⟩ := ih hstep (Function.update_self _ _ _)
      fun r hr => hvalue r (List.mem_cons_of_mem _ hr)
    exact ⟨t, ht, hpolled, hpoll⟩

theorem back_to_poll (h : ((system M topic).restrict Undisturbed).Reachable s)
    (hm : s.consumer m = some c) (hvalue : ∀ r ∈ unprinted (some c), r.value ≠ none) :
    ∃ t assigned, ((system M topic).restrict Undisturbed).Reachable t ∧ t.polled = s.polled ∧
      t.consumer m = some ⟨assigned, .poll⟩ := by
  obtain ⟨assigned, pc⟩ := c
  cases pc with
  | poll => exact ⟨s, assigned, h, rfl, hm⟩
  | commitSync records =>
    have ha := (Complete.reachable h).owned m _ hm
    have hstep := h.step ⟨by simp [Undisturbed], .commitSync s m assigned records hm ha⟩
    obtain ⟨t, ht, hpolled, hpoll⟩ := print_rest hstep (Function.update_self _ _ _) hvalue
    exact ⟨t, assigned, ht, hpolled, hpoll⟩
  | print rest =>
    obtain ⟨t, ht, hpolled, hpoll⟩ := print_rest h hm hvalue
    exact ⟨t, assigned, ht, hpolled, hpoll⟩

/-- No record is ever printed twice, by whichever members, and only records over the
threshold are. In a run without crashes and reassignments, a member has printed those
among its polled records that are over the threshold, in their order, up to the place
where it stands in its batch, and it gets to the end of the batch. -/
theorem printed_at_most_once (M : Type) [DecidableEq M] (topic : Topic P K (Option Int)) :
    (∀ s : State P K M, (system M topic).Reachable s →
      (s.printed.map fun e => key e.2).Nodup ∧
      ∀ e ∈ s.printed, ∃ value, e.2.value = some value ∧ value > threshold) ∧
    ∀ s : State P K M, ((system M topic).restrict Undisturbed).Reachable s → ∀ m,
      s.printedBy m ++ (unprinted (s.consumer m)).filter overThreshold =
        (s.polled m).filter overThreshold ∧
      ∀ c, s.consumer m = some c → (∀ r ∈ unprinted (some c), r.value ≠ none) →
        ∃ t : State P K M, ((system M topic).restrict Undisturbed).Reachable t ∧
          t.polled = s.polled ∧ (∃ assigned, t.consumer m = some ⟨assigned, .poll⟩) ∧
          t.printedBy m = (s.polled m).filter overThreshold := by
  constructor
  · intro s hs
    have hinv := Inv.reachable hs
    have hnodup := hinv.once.finished_nodup
    rw [List.map_map] at hnodup
    exact ⟨hnodup, hinv.overThreshold⟩
  · intro s hs m
    refine ⟨(Complete.reachable hs).printed m, fun c hm hvalue => ?_⟩
    obtain ⟨t, assigned, ht, hpolled, hpoll⟩ := back_to_poll hs hm hvalue
    have hprinted := (Complete.reachable ht).printed m
    rw [hpoll, hpolled] at hprinted
    exact ⟨t, ht, hpolled, ⟨assigned, hpoll⟩, by simpa [unprinted] using hprinted⟩

def threeRecords : Topic Unit Nat (Option Int) where
  log _ := [⟨(), 0, 7, some 501⟩, ⟨(), 1, 7, some 502⟩, ⟨(), 2, 7, some 503⟩]
  increasing _ := by simp [OffsetLog.Increasing]
  partition _ := by simp

def firstTwo : ConsumerRecords Unit Nat (Option Int) where
  partitions := [()]
  records _ := [⟨(), 0, 7, some 501⟩, ⟨(), 1, 7, some 502⟩]
  nodup := List.nodup_singleton ()
  mem_partitions _ := by simp

def third : ConsumerRecords Unit Nat (Option Int) where
  partitions := [()]
  records _ := [⟨(), 2, 7, some 503⟩]
  nodup := List.nodup_singleton ()
  mem_partitions _ := by simp

/-- One member crashes after its first line, and another one takes over: a record is lost, and
none is printed twice. -/
theorem printed_at_most_once_takeover : ∃ s : State Unit Nat Bool,
    (system Bool threeRecords).Reachable s ∧
    s.printed = [(false, ⟨(), 0, 7, some 501⟩), (true, ⟨(), 2, 7, some 503⟩)] ∧
    (s.printed.map fun e => key e.2).Nodup := by
  let group : Group Unit Bool :=
    { committed := fun _ => some 0, logEnd := fun _ => 3, owner := fun _ => some false
      generation := fun _ => 1 }
  have h0 : (system Bool threeRecords).Reachable ⟨group, fun _ => none, [], fun _ => []⟩ :=
    .start ⟨fun _ => rfl, rfl, fun _ => rfl⟩
  have h1 := h0.step (.start _ false rfl)
  have h2 := h1.step (.rebalance _ false _ rfl)
  have h3 := h2.step (.poll _ false _ _ firstTwo rfl
    ⟨fun _ => ⟨[⟨(), 2, 7, some 503⟩], rfl⟩, fun _ hp => (by cases hp), rfl⟩)
  have h4 := h3.step (.commitSync _ false _ firstTwo rfl
    fun _ _ _ ha => (by cases ha; exact ⟨rfl, rfl⟩))
  have h5 := h4.step (.print _ false _ _ _ 501 rfl rfl)
  have h6 := h5.step (.crash _ false _ rfl)
  have h7 := h6.step (.revoke _ ())
  have h8 := h7.step (.assign _ () true rfl)
  have h9 := h8.step (.start _ true rfl)
  have h10 := h9.step (.rebalance _ true _ rfl)
  have h11 := h10.step (.poll _ true _ _ third rfl
    ⟨fun _ => ⟨[], rfl⟩, fun _ hp => (by cases hp), rfl⟩)
  have h12 := h11.step (.commitSync _ true _ third rfl
    fun _ _ _ ha => (by cases ha; exact ⟨rfl, rfl⟩))
  have h13 := h12.step (.print _ true _ _ _ 503 rfl rfl)
  exact ⟨_, h13, rfl, ((printed_at_most_once Bool threeRecords).1 _ h13).1⟩

end Nsds.Kafka.AtMostOncePrinter
