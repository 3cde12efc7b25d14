import Nsds.Lib.Diamond
import Mathlib.Data.Fintype.Basic
import Mathlib.Logic.Function.Basic
import Mathlib.Logic.Relation
import Mathlib.Order.Minimal
import Mathlib.Tactic.Choose

/-!
# Processes that call collectives

A call is one that the processes make together: a root tells the others something, or they tell
the root, or they only wait for each other. A process stays in a call until it has what it needs,
and how much longer is left to the implementation, which may keep it until all have come.

A program that comes to its end when the processes make every call together comes to the same end
however they run.
-/

namespace Collectives

/-- Who sends and who receives in a collective call. -/
inductive Kind (ρ : Type) where
  | fromRoot (root : ρ)
  | toRoot (root : ρ)
  | all

/-- In a call of this kind `p` needs something of `q`. -/
def Kind.Needs : Kind ρ → ρ → ρ → Prop
  | .fromRoot root, _, q => q = root
  | .toRoot root, p, _ => p = root
  | .all, _, _ => True

variable {ρ ν σ : Type}

instance [DecidableEq ρ] (kind : Kind ρ) (p q : ρ) : Decidable (kind.Needs p q) :=
  match kind with
  | .fromRoot root => inferInstanceAs (Decidable (q = root))
  | .toRoot root => inferInstanceAs (Decidable (p = root))
  | .all => inferInstanceAs (Decidable True)

/-- What a process wants to do next, with `σ` what it remembers of the past. In a call it hands
over a value, and learns the values of those of whom it needs something. -/
inductive Op (ρ ν σ : Type) where
  | exit
  | compute (next : σ)
  | call (kind : Kind ρ) (value : ν) (next : (ρ → Option ν) → σ)

/-- All go on with the value of the root. -/
def Op.fromRoot (root : ρ) (value : ν) (next : ν → σ) : Op ρ ν σ :=
  .call (.fromRoot root) value fun learned => next ((learned root).getD value)

/-- The root goes on with the values of all, the others without. -/
def Op.toRoot (root : ρ) (value : ν) (next : Option (ρ → ν) → σ) : Op ρ ν σ :=
  .call (.toRoot root) value fun learned =>
    next ((learned root).map fun _ q => (learned q).getD value)

/-- All wait for each other. -/
def Op.barrier (value : ν) (next : σ) : Op ρ ν σ := .call .all value fun _ => next

/-- The root of a call, where processes are numbered. -/
def processZero {n : Nat} (r : Fin n) : Fin n := ⟨0, r.pos⟩

/-- A process, with the calls that it has begun and how many of them have returned. -/
structure Process (ρ ν σ : Type) where
  mem : σ
  calls : List (Kind ρ × ν)
  returned : Nat

/-- The processes, each with its memory and its calls. -/
abbrev State (ρ ν σ : Type) := ρ → Process ρ ν σ

variable [DecidableEq ρ]

/-- Of the values that the processes hand over, those that `p` learns. -/
def Kind.learned (kind : Kind ρ) (p : ρ) (values : ρ → ν) (q : ρ) : Option ν :=
  if kind.Needs p q then some (values q) else none

/-- One process goes on, as soon as the others have done what it needs. -/
inductive Act (op : Op ρ ν σ) (calls : ρ → List (Kind ρ × ν)) (p : ρ) (x : Process ρ ν σ) :
    Process ρ ν σ → Prop where
  | compute {m : σ} : op = .compute m → Act op calls p x { x with mem := m }
  | enter {kind : Kind ρ} {v : ν} {next : (ρ → Option ν) → σ} : op = .call kind v next →
      x.returned = x.calls.length →
      Act op calls p x { x with calls := x.calls ++ [(kind, v)] }
  | leave {kind : Kind ρ} {v : ν} {next : (ρ → Option ν) → σ} {values : ρ → ν} :
      op = .call kind v next → x.returned + 1 = x.calls.length →
      (∀ q, kind.Needs p q → (calls q)[x.returned]? = some (kind, values q)) →
      Act op calls p x { x with mem := next (kind.learned p values), returned := x.returned + 1 }

variable (prog : ρ → σ → Op ρ ν σ)

/-- One move of one process. -/
def Move (s : State ρ ν σ) (p : ρ) (t : State ρ ν σ) : Prop :=
  ∃ x, Act (prog p (s p).mem) (fun q => (s q).calls) p (s p) x ∧ t = Function.update s p x

/-- All have come to the call in which `p` is, if it is in one. -/
def Together (s : State ρ ν σ) (p : ρ) : Prop :=
  (s p).returned < (s p).calls.length → ∀ q, (s p).returned < (s q).calls.length

/-- No process has made a call. -/
def initial (mem : ρ → σ) : State ρ ν σ := fun p => ⟨mem p, [], 0⟩

/-- The runs of every implementation, however long it keeps a process in a call. -/
def system (mem : ρ → σ) : Transition.System (State ρ ν σ) ρ where
  start s := s = initial mem
  step := Move prog

/-- The runs of an implementation that keeps a process in a call until all have come. -/
def synchronized (mem : ρ → σ) : Transition.System (State ρ ν σ) ρ :=
  (system prog mem).restrict (Together (ρ := ρ))

/-! ## One move -/

variable {prog} {s t u v : State ρ ν σ} {p q : ρ} {mem : ρ → σ} {op : Op ρ ν σ}
  {x y : Process ρ ν σ} {calls calls' : ρ → List (Kind ρ × ν)}

theorem Act.mono (hpre : ∀ q, calls q <+: calls' q) (h : Act op calls p x y) :
    Act op calls' p x y := by
  cases h with
  | compute hop => exact .compute hop
  | enter hop hreturned => exact .enter hop hreturned
  | leave hop hreturned hvalues =>
    refine .leave hop hreturned fun q hq => ?_
    obtain ⟨hlt, hget⟩ := List.getElem?_eq_some_iff.mp (hvalues q hq)
    rw [(hpre q).getElem hlt] at hget
    exact List.getElem?_eq_some_iff.mpr ⟨Nat.lt_of_lt_of_le hlt (hpre q).length_le, hget⟩

theorem Act.calls_prefix (h : Act op calls p x y) : x.calls <+: y.calls := by
  cases h <;> simp

theorem Act.unique {z : Process ρ ν σ} (h : Act op calls p x y) (h' : Act op calls p x z) :
    y = z := by
  cases h with
  | compute hop =>
    cases h' with
    | compute hop' =>
      rw [hop] at hop'
      cases hop'
      rfl
    | enter hop' | leave hop' => simp [hop] at hop'
  | enter hop hreturned =>
    cases h' with
    | compute hop' => simp [hop] at hop'
    | enter hop' =>
      rw [hop] at hop'
      cases hop'
      rfl
    | leave _ hreturned' => omega
  | @leave kind _ next values hop hreturned hvalues =>
    cases h' with
    | compute hop' => simp [hop] at hop'
    | enter _ hreturned' => omega
    | @leave _ _ _ values' hop' _ hvalues' =>
      rw [hop] at hop'
      cases hop'
      have hlearned : kind.learned p values = kind.learned p values' := by
        funext q
        unfold Kind.learned
        split
        · next hq =>
          have heq := (hvalues q hq).symm.trans (hvalues' q hq)
          simp only [Option.some.injEq, Prod.mk.injEq, true_and] at heq
          rw [heq]
        · rfl
      rw [hlearned]

theorem calls_prefix_update (hx : (s p).calls <+: x.calls) (q : ρ) :
    (s q).calls <+: (Function.update s p x q).calls := by
  rcases eq_or_ne q p with rfl | hq
  · rw [Function.update_self]
    exact hx
  · rw [Function.update_of_ne hq]

theorem Move.calls_prefix (h : Move prog s p t) (q : ρ) : (s q).calls <+: (t q).calls := by
  obtain ⟨x, hx, rfl⟩ := h
  exact calls_prefix_update hx.calls_prefix q

theorem Move.other (h : Move prog s p t) (hq : q ≠ p) : t q = s q := by
  obtain ⟨x, -, rfl⟩ := h
  rw [Function.update_of_ne hq]

theorem act_later (h : Act (prog p (s p).mem) (fun q => (s q).calls) p (s p) x)
    (hp : t p = s p) (hcalls : ∀ q, (s q).calls <+: (t q).calls) :
    Move prog t p (Function.update t p x) := by
  refine ⟨x, ?_, rfl⟩
  rw [hp]
  exact h.mono hcalls

theorem independent : (system prog mem).Independent where
  unique := by
    rintro s t u p ⟨x, hx, rfl⟩ ⟨y, hy, rfl⟩
    rw [hx.unique hy]
  commute := by
    rintro s t u p q hpq ⟨x, hx, rfl⟩ ⟨y, hy, rfl⟩
    refine ⟨Function.update (Function.update s p x) q y, ?_, ?_⟩
    · exact act_later hy (Function.update_of_ne hpq.symm x s)
        (calls_prefix_update hx.calls_prefix)
    · rw [Function.update_comm hpq]
      exact act_later hx (Function.update_of_ne hpq y s) (calls_prefix_update hy.calls_prefix)

theorem run_calls {ms : List ρ} (h : (system prog mem).Run s ms t) (q : ρ) :
    (s q).calls <+: (t q).calls := by
  induction h with
  | nil => exact List.prefix_rfl
  | cons hs _ ih => exact (Move.calls_prefix hs q).trans ih

/-! ## Who is in a call -/

/-- A process has returned from all its calls, or it is in the last. -/
def Entered (op : Op ρ ν σ) (x : Process ρ ν σ) : Prop :=
  x.returned = x.calls.length ∨ ∃ kind v next, op = .call kind v next ∧
    x.returned + 1 = x.calls.length ∧ x.calls[x.returned]? = some (kind, v)

theorem entered (h : (system prog mem).Reachable s) (p : ρ) : Entered (prog p (s p).mem) (s p) := by
  refine h.invariant (fun s => ∀ p, Entered (prog p (s p).mem) (s p)) ?_ ?_ p
  · rintro s rfl p
    exact .inl rfl
  · rintro s p t hs ⟨x, hx, rfl⟩ q
    rcases eq_or_ne q p with rfl | hq
    · rw [Function.update_self]
      cases hx with
      | compute hop =>
        rcases hs q with hreturned | ⟨kind, v, next, hop', -⟩
        · exact .inl hreturned
        · simp [hop] at hop'
      | enter hop hreturned => exact .inr ⟨_, _, _, hop, by simp [hreturned], by simp [hreturned]⟩
      | leave hop hreturned => exact .inl hreturned
    · rw [Function.update_of_ne hq]
      exact hs q

/-- The calls are of the same kinds everywhere. -/
def Even (s : State ρ ν σ) : Prop := ∀ p q, (s p).calls.map Prod.fst = (s q).calls.map Prod.fst

omit [DecidableEq ρ] in
theorem Even.length (h : Even t) (p q : ρ) : (t p).calls.length = (t q).calls.length := by
  simpa using congrArg List.length (h p q)

theorem run_exit {ms : List ρ} (hrun : (system prog mem).Run s ms t)
    (hp : prog p (s p).mem = .exit) : t p = s p := by
  induction hrun with
  | nil => rfl
  | @cons s u t q ms hs _ ih =>
    have hpq : p ≠ q := by
      rintro rfl
      obtain ⟨x, hx, -⟩ := hs
      cases hx <;> simp_all
    have hu := Move.other hs hpq
    rw [ih (by rw [hu]; exact hp), hu]

theorem leave_together {kind : Kind ρ} {v : ν} {next : (ρ → Option ν) → σ} {ms : List ρ}
    (hrun : (system prog mem).Run s ms t) (heven : Even t)
    (hop : prog p (s p).mem = .call kind v next) (hinside : (s p).returned + 1 = (s p).calls.length)
    (hlast : (s p).calls[(s p).returned]? = some (kind, v))
    (hall : ∀ q, (s p).returned < (s q).calls.length) : ∃ u, Move prog s p u := by
  have hkind (q : ρ) : ((s q).calls.map Prod.fst)[(s p).returned]? = some kind := by
    have hpre (r : ρ) : ((s r).calls.map Prod.fst)[(s p).returned]? =
        ((t r).calls.map Prod.fst)[(s p).returned]? := by
      have hr := (run_calls hrun r).map Prod.fst
      have hlt : (s p).returned < ((s r).calls.map Prod.fst).length := by simpa using hall r
      rw [List.getElem?_eq_getElem hlt, hr.getElem hlt, ← List.getElem?_eq_getElem]
    rw [hpre q, heven q p, ← hpre p, List.getElem?_map, hlast]
    rfl
  have hvalues (q : ρ) : ∃ w, (s q).calls[(s p).returned]? = some (kind, w) := by
    have hq := hkind q
    rw [List.getElem?_map, Option.map_eq_some_iff] at hq
    obtain ⟨⟨_, w⟩, hget, rfl⟩ := hq
    exact ⟨w, hget⟩
  choose values hvalues using hvalues
  exact ⟨_, _, .leave hop hinside fun q _ => hvalues q, rfl⟩

/-- On the way to an end that is even, some process can go on without leaving anyone behind: of
those in a call, one that has returned from the fewest. -/
theorem synchronized_step {ms : List ρ} (hs : (system prog mem).Reachable s)
    (hrun : (system prog mem).Run s ms t) (heven : Even t) (hmore : ms ≠ []) :
    ∃ p u, (synchronized prog mem).step s p u := by
  by_cases hfree : ∃ p, (s p).returned = (s p).calls.length ∧ ∃ u, Move prog s p u
  · obtain ⟨p, hp, u, hu⟩ := hfree
    refine ⟨p, u, fun hlt => ?_, hu⟩
    omega
  · -- all others are in a call
    have hinside (p : ρ) : prog p (s p).mem = .exit ∨ ∃ kind v next,
        prog p (s p).mem = .call kind v next ∧ (s p).returned + 1 = (s p).calls.length ∧
          (s p).calls[(s p).returned]? = some (kind, v) := by
      rcases entered hs p with hreturned | hinside
      · cases hop : prog p (s p).mem with
        | exit => exact .inl rfl
        | compute m => exact absurd ⟨p, hreturned, _, _, .compute hop, rfl⟩ hfree
        | call kind v next => exact absurd ⟨p, hreturned, _, _, .enter hop hreturned, rfl⟩ hfree
      · exact .inr hinside
    have hsome : ∃ p, prog p (s p).mem ≠ .exit := by
      cases hrun with
      | nil => exact absurd rfl hmore
      | @cons _ _ _ p _ hstep _ =>
        obtain ⟨x, hx, -⟩ := hstep
        refine ⟨p, fun hexit => ?_⟩
        cases hx <;> simp_all
    obtain ⟨p, hp, hmin⟩ := exists_minimalFor_of_wellFoundedLT
      (fun p => prog p (s p).mem ≠ .exit) (fun p => (s p).returned) hsome
    obtain ⟨kind, v, next, hop, hlength, hlast⟩ := (hinside p).resolve_left hp
    have hall (q : ρ) : (s p).returned < (s q).calls.length := by
      rcases hinside q with hexit | ⟨_, _, _, hop', hlength', -⟩
      · have hle := (run_calls hrun p).length_le
        rw [heven.length p q, run_exit hrun hexit] at hle
        omega
      · have hle := hmin (j := q) (by simp [hop'])
        simp only at hle
        omega
    obtain ⟨u, hu⟩ := leave_together hrun heven hop hlength hlast hall
    exact ⟨p, u, fun _ => hall, hu⟩

theorem synchronized_run {ms : List ρ} (hs : (system prog mem).Reachable s)
    (hrun : (system prog mem).Run s ms t) (hstuck : (system prog mem).Stuck t) (heven : Even t) :
    ∃ ks, (synchronized prog mem).Run s ks t ∧ ks.length = ms.length := by
  induction hn : ms.length generalizing s ms with
  | zero =>
    obtain rfl := List.eq_nil_of_length_eq_zero hn
    cases hrun
    exact ⟨[], .nil _, rfl⟩
  | succ n ih =>
    obtain ⟨p, u, htogether, hu⟩ := synchronized_step hs hrun heven (by rintro rfl; simp at hn)
    rcases hrun.residual independent hu with ⟨hmem, hrest⟩ | ⟨-, v, hv, -⟩
    · have hlength : (ms.erase p).length = n := by
        rw [List.length_erase_of_mem hmem, hn]
        rfl
      obtain ⟨ks, hks, hlength⟩ := ih (hs.step hu) hrest hlength
      exact ⟨p :: ks, .cons ⟨htogether, hu⟩ hks, by simp [hlength]⟩
    · exact absurd hv (hstuck p v)

/-- However long an implementation keeps processes in a call and in whatever order they run, no
run comes to a halt before every process has ended with what `final` says, and all of them take
as many moves to get there. -/
def Completes (prog : ρ → σ → Op ρ ν σ) (mem final : ρ → σ) : Prop :=
  ∃ t n, (∀ p, (t p).mem = final p ∧ prog p (final p) = .exit) ∧
    ∀ ms u, (system prog mem).Run (initial mem) ms u →
      ∃ ks, (synchronized prog mem).Run u ks t ∧ ms.length + ks.length = n

/-- It is enough to look at one run. -/
theorem completes_of_run {final : ρ → σ} {ls : List ρ}
    (h : (system prog mem).Run (initial mem) ls t) (heven : Even t)
    (hfinal : ∀ p, (t p).mem = final p ∧ prog p (final p) = .exit) :
    Completes prog mem final := by
  have hstuck : (system prog mem).Stuck t := by
    rintro p u ⟨x, hx, -⟩
    rw [(hfinal p).1, (hfinal p).2] at hx
    cases hx <;> simp_all
  refine ⟨t, ls.length, hfinal, fun ms u hrun => ?_⟩
  have hstart : (system prog mem).Reachable (initial mem) := .start rfl
  obtain ⟨ks, hks, hperm⟩ := h.confluent independent hstuck hrun
  obtain ⟨ks', hks', hlength⟩ := synchronized_run (hstart.run hrun) hks hstuck heven
  refine ⟨ks', hks', ?_⟩
  rw [hlength, ← List.length_append, hperm.length_eq]

/-! ## Rounds -/

/-- The program without calls in progress: one process goes on by itself, or all make a call. -/
inductive Round (prog : ρ → σ → Op ρ ν σ) : (ρ → σ) → (ρ → σ) → Prop where
  | compute {mem : ρ → σ} {p : ρ} {m : σ} :
      prog p (mem p) = .compute m → Round prog mem (Function.update mem p m)
  | call {mem : ρ → σ} {kind : Kind ρ} {values : ρ → ν} {next : ρ → (ρ → Option ν) → σ} :
      (∀ p, prog p (mem p) = .call kind (values p) (next p)) →
      Round prog mem fun p => next p (kind.learned p values)

theorem Round.fromRoot (root : ρ) (values : ρ → ν) (next : ρ → ν → σ) {mem' : ρ → σ}
    (h : ∀ p, prog p (mem p) = .fromRoot root (values p) (next p))
    (hmem : ∀ p, mem' p = next p (values root)) : Round prog mem mem' := by
  convert Round.call h with p
  simp [hmem, Kind.learned, Kind.Needs]

theorem Round.toRoot (root : ρ) (values : ρ → ν) (next : ρ → Option (ρ → ν) → σ) {mem' : ρ → σ}
    (h : ∀ p, prog p (mem p) = .toRoot root (values p) (next p))
    (hmem : ∀ p, mem' p = next p (if p = root then some values else none)) :
    Round prog mem mem' := by
  convert Round.call h with p
  by_cases hp : p = root <;> simp [hmem, Kind.learned, Kind.Needs, hp]

theorem Round.barrier (values : ρ → ν) {mem' : ρ → σ}
    (h : ∀ p, prog p (mem p) = .barrier (values p) (mem' p)) : Round prog mem mem' := .call h

/-- Nobody is in a call, and all have made the same calls. -/
structure Between (s : State ρ ν σ) : Prop where
  even : Even s
  returned : ∀ p, (s p).returned = (s p).calls.length

variable (mem) in
theorem run_each {next : ρ → Process ρ ν σ} (l : List ρ) (hl : l.Nodup)
    (h : ∀ p ∈ l, Act (prog p (s p).mem) (fun q => (s q).calls) p (s p) (next p)) :
    (system prog mem).Run s l fun p => if p ∈ l then next p else s p := by
  induction l generalizing s with
  | nil => simpa using Transition.System.Run.nil s
  | cons p l ih =>
    rw [List.nodup_cons] at hl
    have hp := h p List.mem_cons_self
    have hrest := ih (s := Function.update s p (next p)) hl.2 fun q hq => ?_
    · refine .cons ⟨next p, hp, rfl⟩ ?_
      convert hrest using 1
      funext q
      rcases eq_or_ne q p with rfl | hqp
      · simp [hl.1]
      · simp [hqp]
    · have hqp : q ≠ p := by
        rintro rfl
        exact hl.1 hq
      rw [Function.update_of_ne hqp]
      exact (h q (List.mem_cons_of_mem p hq)).mono (calls_prefix_update hp.calls_prefix)

variable [Fintype ρ]

variable (mem) in
theorem run_all {next : ρ → Process ρ ν σ}
    (h : ∀ p, Act (prog p (s p).mem) (fun q => (s q).calls) p (s p) (next p)) :
    (system prog mem).Run s Finset.univ.toList next := by
  simpa using run_each mem Finset.univ.toList (Finset.nodup_toList _) fun p _ => h p

variable (mem) in
theorem round_run {mem' : ρ → σ} (hs : Between s) (h : Round prog (fun p => (s p).mem) mem') :
    ∃ ls t, (system prog mem).Run s ls t ∧ Between t ∧ (fun p => (t p).mem) = mem' := by
  cases h with
  | @compute p m hop =>
    have hsame (q : ρ) : (Function.update s p { s p with mem := m } q).calls = (s q).calls ∧
        (Function.update s p { s p with mem := m } q).returned = (s q).returned := by
      rcases eq_or_ne q p with rfl | hq <;> simp [*]
    refine ⟨[p], _, .single ⟨_, .compute hop, rfl⟩, ⟨fun q r => ?_, fun q => ?_⟩, ?_⟩
    · rw [(hsame q).1, (hsame r).1]
      exact hs.even q r
    · rw [(hsame q).1, (hsame q).2]
      exact hs.returned q
    · funext q
      rcases eq_or_ne q p with rfl | hq <;> simp [*]
  | @call kind values next hop =>
    have hlength (q r : ρ) : (s q).returned = (s r).calls.length :=
      (hs.returned q).trans (hs.even.length q r)
    have henter := run_all mem fun p => .enter (hop p) (hs.returned p)
    refine ⟨_, _, henter.append (run_all mem fun p => .leave (hop p) ?_ fun q _ => ?_),
      ⟨fun q r => ?_, fun q => ?_⟩, rfl⟩
    · simp [hs.returned p]
    · simp [hlength p q]
    · simp [hs.even q r]
    · simp [hs.returned q]

theorem rounds_run {final : ρ → σ} (h : Relation.ReflTransGen (Round prog) mem final) :
    ∃ ls t, (system prog mem).Run (initial mem) ls t ∧ Between t ∧
      (fun p => (t p).mem) = final := by
  induction h with
  | refl => exact ⟨[], initial mem, .nil _, ⟨fun _ _ => rfl, fun _ => rfl⟩, rfl⟩
  | tail _ hround ih =>
    obtain ⟨ls, t, hrun, hbetween, rfl⟩ := ih
    obtain ⟨ls', u, hrun', hbetween', hmem⟩ := round_run mem hbetween hround
    exact ⟨ls ++ ls', u, hrun.append hrun', hbetween', hmem⟩

/-- A program that comes to its end in rounds comes to that end in every run. -/
theorem completes_of_rounds {final : ρ → σ} (h : Relation.ReflTransGen (Round prog) mem final)
    (hexit : ∀ p, prog p (final p) = .exit) : Completes prog mem final := by
  obtain ⟨ls, t, hrun, hbetween, rfl⟩ := rounds_run h
  exact completes_of_run hrun hbetween.even fun p => ⟨rfl, hexit p⟩

end Collectives
