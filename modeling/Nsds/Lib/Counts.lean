import Mathlib.Data.List.Nodup

/-!
# Running counts

How often every key of a list has come up to its place.
-/

namespace Counts

variable {κ : Type} [DecidableEq κ]

/-- `seen` are the keys that came before. -/
def runningFrom (seen : List κ) : List κ → List (κ × Nat)
  | [] => []
  | key :: keys => (key, (seen ++ [key]).count key) :: runningFrom (seen ++ [key]) keys

/-- The count of every key at its place. -/
def running (keys : List κ) : List (κ × Nat) := runningFrom [] keys

theorem length_runningFrom (seen keys : List κ) :
    (runningFrom seen keys).length = keys.length := by
  induction keys generalizing seen with
  | nil => rfl
  | cons key keys ih => rw [runningFrom, List.length_cons, ih, List.length_cons]

@[simp] theorem length_running (keys : List κ) : (running keys).length = keys.length :=
  length_runningFrom [] keys

theorem runningFrom_eq_ones_iff (seen keys : List κ) :
    runningFrom seen keys = keys.map (·, 1) ↔ keys.Nodup ∧ ∀ key ∈ keys, key ∉ seen := by
  induction keys generalizing seen with
  | nil => simp [runningFrom]
  | cons key keys ih =>
    have hfirst : (seen ++ [key]).count key = 1 ↔ key ∉ seen := by
      rw [List.count_append, List.count_singleton_self, Nat.add_eq_right, List.count_eq_zero]
    rw [runningFrom, List.map_cons, List.cons.injEq, Prod.mk.injEq, hfirst, ih, List.nodup_cons,
      List.forall_mem_cons]
    simp only [List.mem_append, List.mem_singleton, not_or]
    constructor
    · rintro ⟨⟨-, hkey⟩, hkeys, hrest⟩
      exact ⟨⟨fun hmem => (hrest key hmem).2 rfl, hkeys⟩, hkey, fun k hk => (hrest k hk).1⟩
    · rintro ⟨⟨hnew, hkeys⟩, hkey, hrest⟩
      exact ⟨⟨trivial, hkey⟩, hkeys, fun k hk => ⟨hrest k hk, fun heq => hnew (heq ▸ hk)⟩⟩

theorem running_eq_ones_iff (keys : List κ) : running keys = keys.map (·, 1) ↔ keys.Nodup := by
  unfold running
  rw [runningFrom_eq_ones_iff]
  simp

end Counts
