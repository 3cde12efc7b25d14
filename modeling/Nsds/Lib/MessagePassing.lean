import Nsds.Lib.Diamond
import Mathlib.Logic.Function.Basic
import Mathlib.Logic.Relation

/-!
# Processes that send each other messages

Messages from one process to another arrive in the order in which they were sent, and a
receive names the process it expects a message from. Whether a plain send waits for its
receiver is left to the implementation, which may decide anew each time.

A program that comes to its end when no message is ever buffered comes to the same end
whatever is buffered and in whatever order the processes run.
-/

namespace MessagePassing

inductive Mode where
  /-- Returns as soon as the message is stored somewhere or received. -/
  | standard
  /-- Returns when the message is received. -/
  | synchronous
  /-- Returns at once; `wait` is for the message to leave. -/
  | nonblocking

/-- What a process wants to do next, with `σ` what it remembers of the past. -/
inductive Op (ρ ν σ : Type) where
  | exit
  | compute (next : σ)
  | send (mode : Mode) (receiver : ρ) (value : ν) (next : σ)
  | wait (receiver : ρ) (next : σ)
  | recv (sender : ρ) (next : ν → σ)

/-- A process, everything it has sent and how much it has received. -/
structure Process (ρ ν σ : Type) where
  mem : σ
  sent : ρ → List ν
  received : ρ → Nat

/-- The processes, each with its memory and the messages that it has sent. -/
abbrev State (ρ ν σ : Type) := ρ → Process ρ ν σ

variable {ρ ν σ : Type}

/-- The messages from `p` that `q` has not received yet. -/
def pending (s : State ρ ν σ) (p q : ρ) : List ν := ((s p).sent q).drop ((s q).received p)

variable [DecidableEq ρ]

/-- The next operation of a process. `inbox q` is all that `q` ever sent to it. -/
def act (op : Op ρ ν σ) (x : Process ρ ν σ) (inbox : ρ → List ν) : Option (Process ρ ν σ) :=
  match op with
  | .exit => none
  | .compute m => some { x with mem := m }
  | .send _ q v m =>
      some { x with mem := m, sent := Function.update x.sent q (x.sent q ++ [v]) }
  | .wait _ m => some { x with mem := m }
  | .recv q k => (inbox q)[x.received q]?.map fun v =>
      { x with mem := k v, received := Function.update x.received q (x.received q + 1) }

variable (prog : ρ → σ → Op ρ ν σ)

/-- One process goes on, as if every message could be buffered. -/
def move (s : State ρ ν σ) (p : ρ) : Option (State ρ ν σ) :=
  (act (prog p (s p).mem) (s p) fun q => (s q).sent p).map (Function.update s p)

/-- No message has been sent. -/
def initial (mem : ρ → σ) : State ρ ν σ := fun p => ⟨mem p, fun _ => [], fun _ => 0⟩

/-- The processes moving one at a time from `mem`. -/
def free (mem : ρ → σ) : Transition.System (State ρ ν σ) ρ where
  start s := s = initial mem
  step s p t := move prog s p = some t

/-- What `p` can do by itself even if nothing is buffered. -/
def Alone (s : State ρ ν σ) (p : ρ) : Prop :=
  match prog p (s p).mem with
  | .send mode _ _ _ => mode = .nonblocking
  | .wait q _ => pending s p q = []
  | _ => True

/-- What an implementation may let `p` do by buffering its message. -/
def Buffered (s : State ρ ν σ) (p : ρ) : Prop :=
  match prog p (s p).mem with
  | .send mode _ _ _ => mode = .standard
  | .wait _ _ => True
  | _ => False

/-- Steps that need no buffer: of one process, or of a sender and the receiver that is
waiting for it. -/
inductive Sure : State ρ ν σ → List ρ → State ρ ν σ → Prop where
  | alone {s t : State ρ ν σ} {p : ρ} : Alone prog s p → move prog s p = some t → Sure s [p] t
  | meet {s t u : State ρ ν σ} {p q : ρ} {mode : Mode} {v : ν} {m : σ} {k : ν → σ} :
      prog p (s p).mem = .send mode q v m → prog q (s q).mem = .recv p k →
      pending s p q = [] → move prog s p = some t → move prog t q = some u → Sure s [p, q] u

/-- What may happen without buffers, or a send that is buffered. -/
inductive Step : State ρ ν σ → List ρ → State ρ ν σ → Prop where
  | sure {s t : State ρ ν σ} {l : List ρ} : Sure prog s l t → Step s l t
  | buffered {s t : State ρ ν σ} {p : ρ} :
      Buffered prog s p → move prog s p = some t → Step s [p] t

/-- The runs of an implementation that never buffers. -/
def unbuffered (mem : ρ → σ) : Transition.System (State ρ ν σ) (List ρ) where
  start s := s = initial mem
  step := Sure prog

/-- The runs of every implementation, whatever it buffers. -/
def system (mem : ρ → σ) : Transition.System (State ρ ν σ) (List ρ) where
  start s := s = initial mem
  step := Step prog

/-! ## One move -/

variable {prog} {s t u v : State ρ ν σ} {p q : ρ} {mem : ρ → σ}

theorem move_iff : move prog s p = some t ↔
    ∃ x, act (prog p (s p).mem) (s p) (fun q => (s q).sent p) = some x ∧
      Function.update s p x = t := by
  unfold move
  rw [Option.map_eq_some_iff]

theorem move_other (h : move prog s p = some t) (hq : q ≠ p) : t q = s q := by
  obtain ⟨x, -, rfl⟩ := move_iff.mp h
  rw [Function.update_of_ne hq]

theorem act_mono {op : Op ρ ν σ} {x y : Process ρ ν σ} {inbox inbox' : ρ → List ν}
    (hpre : ∀ q, inbox q <+: inbox' q) (h : act op x inbox = some y) :
    act op x inbox' = some y := by
  cases op with
  | recv q k =>
    obtain ⟨v, hv, hy⟩ := Option.map_eq_some_iff.mp h
    obtain ⟨hlt, hget⟩ := List.getElem?_eq_some_iff.mp hv
    have hv' : (inbox' q)[x.received q]? = some v := by
      rw [(hpre q).getElem hlt] at hget
      exact List.getElem?_eq_some_iff.mpr ⟨Nat.lt_of_lt_of_le hlt (hpre q).length_le, hget⟩
    simpa [act, hv'] using hy
  | _ => exact h

theorem act_sent {op : Op ρ ν σ} {x y : Process ρ ν σ} {inbox : ρ → List ν}
    (h : act op x inbox = some y) (q : ρ) : x.sent q <+: y.sent q := by
  cases op with
  | exit => cases h
  | recv r k =>
    obtain ⟨v, -, rfl⟩ := Option.map_eq_some_iff.mp h
    exact List.prefix_rfl
  | send mode r v m =>
    cases h
    rcases eq_or_ne q r with rfl | hq
    · simp
    · simp [Function.update_of_ne hq]
  | _ => cases h; exact List.prefix_rfl

theorem act_received {op : Op ρ ν σ} {x y : Process ρ ν σ} {inbox : ρ → List ν}
    (h : act op x inbox = some y) (q : ρ) : x.received q ≤ y.received q := by
  cases op with
  | exit => cases h
  | recv r k =>
    obtain ⟨v, -, rfl⟩ := Option.map_eq_some_iff.mp h
    rcases eq_or_ne q r with rfl | hq
    · simp
    · simp [Function.update_of_ne hq]
  | _ => cases h; exact Nat.le_refl _

theorem update_sent {x : Process ρ ν σ} (hx : ∀ q, (s p).sent q <+: x.sent q) (r q : ρ) :
    (s r).sent q <+: (Function.update s p x r).sent q := by
  rcases eq_or_ne r p with rfl | hr
  · rw [Function.update_self]
    exact hx q
  · simp [hr]

theorem free_independent : (free prog mem).Independent where
  unique := by
    intro s t u p ht hu
    exact Option.some.inj (ht.symm.trans hu)
  commute := by
    intro s t u p q hpq ht hu
    obtain ⟨x, hx, rfl⟩ := move_iff.mp ht
    obtain ⟨y, hy, rfl⟩ := move_iff.mp hu
    refine ⟨Function.update (Function.update s p x) q y, move_iff.mpr ⟨y, ?_, rfl⟩,
      move_iff.mpr ⟨x, ?_, Function.update_comm hpq.symm y x s⟩⟩
    · rw [Function.update_of_ne hpq.symm]
      exact act_mono (fun r => update_sent (act_sent hx) r q) hy
    · rw [Function.update_of_ne hpq]
      exact act_mono (fun r => update_sent (act_sent hy) r p) hx

/-! ## Runs in which a process rests -/

theorem run_rest {ms : List ρ} (h : (free prog mem).Run s ms t) (hp : p ∉ ms) : t p = s p := by
  induction h with
  | nil => rfl
  | @cons s v t q ms hq _ ih =>
    rw [List.mem_cons, not_or] at hp
    rw [ih hp.2, move_other hq hp.1]

theorem run_received {ms : List ρ} (h : (free prog mem).Run s ms t) (q : ρ) :
    (s p).received q ≤ (t p).received q := by
  induction h with
  | nil => exact Nat.le_refl _
  | @cons s v t r ms hr _ ih =>
    refine Nat.le_trans ?_ ih
    rcases eq_or_ne p r with rfl | hpr
    · obtain ⟨x, hx, rfl⟩ := move_iff.mp hr
      rw [Function.update_self]
      exact act_received hx q
    · exact Nat.le_of_eq (by rw [move_other hr hpr])

theorem pending_rest {ms : List ρ} (h : (free prog mem).Run s ms t) (hp : p ∉ ms)
    (hempty : pending s p q = []) : pending t p q = [] := by
  unfold pending at hempty ⊢
  rw [run_rest h hp]
  rw [List.drop_eq_nil_iff] at hempty ⊢
  exact Nat.le_trans hempty (run_received h p)

theorem receiver_rest {ms : List ρ} {k : ν → σ} (h : (free prog mem).Run s ms t) (hp : p ∉ ms)
    (hq : prog q (s q).mem = .recv p k) (hempty : pending s p q = []) : q ∉ ms := by
  induction h with
  | nil => simp
  | @cons s v t r ms hr _ ih =>
    rw [List.mem_cons, not_or] at hp
    have hqr : q ≠ r := by
      rintro rfl
      obtain ⟨x, hx, -⟩ := move_iff.mp hr
      rw [hq] at hx
      unfold pending at hempty
      rw [List.drop_eq_nil_iff] at hempty
      simp [act, hempty] at hx
    rw [List.mem_cons, not_or]
    refine ⟨hqr, ih hp.2 ?_ ?_⟩
    · rw [move_other hr hqr]
      exact hq
    · exact pending_rest (.single hr) (by simpa using hp.1) hempty

/-! ## Without buffers and with them -/

theorem Sure.run {l : List ρ} (h : Sure prog s l t) : (free prog mem).Run s l t := by
  cases h with
  | alone _ h => exact .single h
  | meet _ _ _ h h' => exact .cons h (.single h')

theorem Step.run {l : List ρ} (h : Step prog s l t) : (free prog mem).Run s l t := by
  cases h with
  | sure h => exact h.run
  | buffered _ h => exact .single h

theorem run_free {ls : List (List ρ)} (h : (system prog mem).Run s ls t) :
    (free prog mem).Run s ls.flatten t := by
  induction h with
  | nil => exact .nil _
  | cons hs _ ih => exact (Step.run hs).append ih

theorem Alone.rest {ms : List ρ} (h : (free prog mem).Run s ms t) (hp : p ∉ ms)
    (ha : Alone prog s p) : Alone prog t p := by
  unfold Alone at ha ⊢
  rw [run_rest h hp]
  split at ha
  · exact ha
  · exact pending_rest h hp ha
  · trivial

/-- What a step without buffers does past a run: the run has done it, or done one half of it,
or it can still be done. -/
theorem Sure.residual {l ms : List ρ} (hs : Sure prog s l v) (h : (free prog mem).Run s ms t) :
    ∃ ks w ms', (unbuffered prog mem).Run t ks w ∧ (free prog mem).Run v ms' w ∧
      (ms ++ ks.flatten).Perm (l ++ ms') := by
  cases hs with
  | @alone _ p ha hp =>
    rcases h.residual free_independent hp with ⟨hmem, hrun⟩ | ⟨hmem, w, hw, hrun⟩
    · exact ⟨[], t, ms.erase p, .nil t, hrun, by simpa using List.perm_cons_erase hmem⟩
    · refine ⟨[[p]], w, ms, .single (.alone (ha.rest h hmem) hw), hrun, ?_⟩
      exact List.perm_append_comm
  | @meet a _ p q mode x m k hsend hrecv hempty hp hq =>
    have hpq : p ≠ q := by
      rintro rfl
      rw [hsend] at hrecv
      cases hrecv
    rcases h.residual free_independent hp with ⟨hmem, hrun⟩ | ⟨hmem, b, hb, hrun⟩
    · -- the message is on its way already
      have hperm := List.perm_cons_erase hmem
      rcases hrun.residual free_independent hq with ⟨hmem', hrun'⟩ | ⟨hmem', w, hw, hrun'⟩
      · refine ⟨[], t, (ms.erase p).erase q, .nil t, hrun', ?_⟩
        simpa using hperm.trans ((List.perm_cons_erase hmem').cons p)
      · have halone : Alone prog t q := by
          unfold Alone
          rw [run_rest hrun hmem', move_other hp hpq.symm, hrecv]
          trivial
        refine ⟨[[q]], w, ms.erase p, .single (.alone halone hw), hrun', ?_⟩
        exact (hperm.append_right [q]).trans (List.perm_append_comm.cons p)
    · -- neither has moved, so they can still meet
      have hmem' : q ∉ ms := receiver_rest h hmem hrecv hempty
      have hsend' : prog p (t p).mem = .send mode q x m := by rw [run_rest h hmem]; exact hsend
      have hrecv' : prog q (t q).mem = .recv p k := by rw [run_rest h hmem']; exact hrecv
      rcases hrun.residual free_independent hq with ⟨hq', -⟩ | ⟨-, w, hw, hrun'⟩
      · exact absurd hq' hmem'
      · refine ⟨[[p, q]], w, ms, .single ?_, hrun', List.perm_append_comm⟩
        exact .meet hsend' hrecv' (pending_rest h hmem hempty) hb hw

theorem unbuffered_confluent {ls : List (List ρ)} {ms : List ρ}
    (h : (unbuffered prog mem).Run s ls t) (hexit : ∀ p, prog p (t p).mem = .exit)
    (h' : (free prog mem).Run s ms u) :
    ∃ ks, (unbuffered prog mem).Run u ks t ∧ (ms ++ ks.flatten).Perm ls.flatten := by
  induction h generalizing ms u with
  | nil s =>
    have hstuck : (free prog mem).Stuck s := by
      intro p t ht
      obtain ⟨x, hx, -⟩ := move_iff.mp ht
      rw [hexit p] at hx
      cases hx
    obtain ⟨rfl, rfl⟩ := h'.of_stuck hstuck
    exact ⟨[], .nil _, .nil⟩
  | @cons s v t l ls hs _ ih =>
    obtain ⟨ks, w, ms', hks, hrun, hperm⟩ := Sure.residual hs h'
    obtain ⟨ks', hks', hperm'⟩ := ih hexit hrun
    refine ⟨ks ++ ks', hks.append hks', ?_⟩
    rw [List.flatten_append, List.flatten_cons, ← List.append_assoc]
    have hright := hperm.append_right ks'.flatten
    rw [List.append_assoc l] at hright
    exact hright.trans (hperm'.append_left l)

/-- Whatever is buffered and in whatever order the processes run, no run comes to a halt
before every process has ended with what `final` says, and all of them take as many moves to
get there. -/
def Completes (prog : ρ → σ → Op ρ ν σ) (mem final : ρ → σ) : Prop :=
  ∃ t n, (∀ p, (t p).mem = final p ∧ prog p (final p) = .exit) ∧
    ∀ ms u, (system prog mem).Run (initial mem) ms u →
      ∃ ks, (unbuffered prog mem).Run u ks t ∧ ms.flatten.length + ks.flatten.length = n

/-- It is enough to look at one run, without buffers. -/
theorem completes_of_unbuffered {final : ρ → σ} {ls : List (List ρ)}
    (h : (unbuffered prog mem).Run (initial mem) ls t)
    (hfinal : ∀ p, (t p).mem = final p ∧ prog p (final p) = .exit) :
    Completes prog mem final := by
  refine ⟨t, ls.flatten.length, hfinal, ?_⟩
  intro ms u hrun
  have hexit (p : ρ) : prog p (t p).mem = .exit := by rw [(hfinal p).1]; exact (hfinal p).2
  obtain ⟨ks, hks, hperm⟩ := unbuffered_confluent h hexit (run_free hrun)
  exact ⟨ks, hks, by simpa using hperm.length_eq⟩

/-! ## Handshakes -/

/-- The program without channels: a sender and its receiver go on together. -/
inductive Handshake (prog : ρ → σ → Op ρ ν σ) : (ρ → σ) → (ρ → σ) → Prop where
  | compute {mem : ρ → σ} {p : ρ} {m : σ} :
      prog p (mem p) = .compute m → Handshake prog mem (Function.update mem p m)
  | meet {mem : ρ → σ} {p q : ρ} {mode : Mode} {v : ν} {m : σ} {k : ν → σ} :
      prog p (mem p) = .send mode q v m → prog q (mem q) = .recv p k →
      Handshake prog mem (Function.update (Function.update mem p m) q (k v))

/-- The memories alone. -/
def mems (s : State ρ ν σ) (p : ρ) : σ := (s p).mem

/-- Everything that was sent has been received. -/
def Quiet (s : State ρ ν σ) : Prop := ∀ p q, (s q).received p = ((s p).sent q).length

theorem mems_update (x : Process ρ ν σ) :
    mems (Function.update s p x) = Function.update (mems s) p x.mem := by
  funext q
  rcases eq_or_ne q p with rfl | hq
  · simp [mems]
  · simp [mems, hq]

theorem update_same {α : Type} {x : Process ρ ν σ} (f : Process ρ ν σ → α)
    (hx : f x = f (s p)) (q : ρ) : f (Function.update s p x q) = f (s q) := by
  rcases eq_or_ne q p with rfl | hq
  · rw [Function.update_self, hx]
  · rw [Function.update_of_ne hq]

theorem sure_compute {m : σ} (hp : prog p (s p).mem = .compute m) (hquiet : Quiet s) :
    ∃ t, Sure prog s [p] t ∧ Quiet t ∧ mems t = Function.update (mems s) p m := by
  let x : Process ρ ν σ := { s p with mem := m }
  have hmove : move prog s p = some (Function.update s p x) :=
    move_iff.mpr ⟨x, by rw [hp]; rfl, rfl⟩
  refine ⟨_, .alone ?_ hmove, ?_, mems_update _⟩
  · unfold Alone
    rw [hp]
    trivial
  · intro q r
    rw [update_same (x := x) Process.received rfl, update_same (x := x) Process.sent rfl]
    exact hquiet q r

theorem sure_meet {mode : Mode} {v : ν} {m : σ} {k : ν → σ}
    (hp : prog p (s p).mem = .send mode q v m) (hq : prog q (s q).mem = .recv p k)
    (hquiet : Quiet s) :
    ∃ t, Sure prog s [p, q] t ∧ Quiet t ∧
      mems t = Function.update (Function.update (mems s) p m) q (k v) := by
  have hpq : q ≠ p := by
    rintro rfl
    rw [hp] at hq
    cases hq
  have hempty : pending s p q = [] := by
    unfold pending
    rw [hquiet p q, List.drop_length]
  let x : Process ρ ν σ :=
    { s p with mem := m, sent := Function.update (s p).sent q ((s p).sent q ++ [v]) }
  let y : Process ρ ν σ :=
    { s q with
      mem := k v, received := Function.update (s q).received p ((s q).received p + 1) }
  have hx : move prog s p = some (Function.update s p x) :=
    move_iff.mpr ⟨x, by rw [hp]; rfl, rfl⟩
  have hy : move prog (Function.update s p x) q =
      some (Function.update (Function.update s p x) q y) := by
    refine move_iff.mpr ⟨y, ?_, rfl⟩
    rw [Function.update_of_ne hpq, hq]
    simp [act, x, y, hquiet p q]
  refine ⟨_, .meet hp hq hempty hx hy, ?_, ?_⟩
  · intro r r'
    rw [update_same Process.sent (p := q) (by rw [Function.update_of_ne hpq])]
    rcases eq_or_ne r' q with rfl | hr'
    · rw [Function.update_self]
      rcases eq_or_ne r p with rfl | hr
      · simp [x, y, hquiet r r']
      · simp [y, hr, hquiet r r']
    · rw [Function.update_of_ne hr', update_same (x := x) Process.received rfl]
      rcases eq_or_ne r p with rfl | hr
      · simp [x, hr', hquiet r r']
      · simp [hr, hquiet r r']
  · rw [mems_update, mems_update]

theorem handshakes_run {final : ρ → σ} (h : Relation.ReflTransGen (Handshake prog) mem final) :
    ∃ ls t, (unbuffered prog mem).Run (initial mem) ls t ∧ Quiet t ∧ mems t = final := by
  induction h with
  | refl => exact ⟨[], initial mem, .nil _, fun _ _ => rfl, rfl⟩
  | tail _ hs ih =>
    obtain ⟨ls, t, hrun, hquiet, rfl⟩ := ih
    cases hs with
    | compute hp =>
      obtain ⟨u, hu, hquiet', hmems⟩ := sure_compute hp hquiet
      exact ⟨ls ++ [[_]], u, hrun.append (.single hu), hquiet', hmems⟩
    | meet hp hq =>
      obtain ⟨u, hu, hquiet', hmems⟩ := sure_meet hp hq hquiet
      exact ⟨ls ++ [[_, _]], u, hrun.append (.single hu), hquiet', hmems⟩

theorem completes_of_handshakes {final : ρ → σ}
    (h : Relation.ReflTransGen (Handshake prog) mem final)
    (hexit : ∀ p, prog p (final p) = .exit) : Completes prog mem final := by
  obtain ⟨ls, t, hrun, -, rfl⟩ := handshakes_run h
  exact completes_of_unbuffered hrun fun p => ⟨rfl, hexit p⟩

theorem handshakes_compute {next : ρ → σ} (l : List ρ) (hl : ∀ p, mem p = next p ∨ p ∈ l)
    (h : ∀ p, mem p = next p ∨ prog p (mem p) = .compute (next p)) :
    Relation.ReflTransGen (Handshake prog) mem next := by
  induction l generalizing mem with
  | nil =>
    obtain rfl : mem = next := by
      funext p
      simpa using hl p
    exact .refl
  | cons p l ih =>
    rcases h p with hp | hp
    · refine ih (fun q => ?_) h
      rcases hl q with hq | hq
      · exact .inl hq
      · rcases List.mem_cons.mp hq with rfl | hq
        · exact .inl hp
        · exact .inr hq
    · have hstep {P : ρ → σ → Prop} (hP : ∀ q, q ≠ p → mem q = next q ∨ P q (mem q)) (q : ρ) :
          Function.update mem p (next p) q = next q ∨
            P q (Function.update mem p (next p) q) := by
        rcases eq_or_ne q p with rfl | hq
        · exact .inl (Function.update_self ..)
        · rw [Function.update_of_ne hq]
          exact hP q hq
      refine .head (.compute hp) (ih (hstep (P := fun q _ => q ∈ l) fun q hq => ?_) ?_)
      · simpa [hq] using hl q
      · exact hstep (P := fun q m => prog q m = .compute (next q)) fun q _ => h q

end MessagePassing
