import Mathlib.Data.List.DropRight
import Nsds.Lib.Arrays

/-!
# Ring buffers

Slots that are written one after the other, and again from the first. They hold what was
written last.
-/

namespace RingBuffer

variable {α : Type}

/-- What the slots hold, the oldest first. The slot `next` is the next to be written. -/
def contents (slots : List α) (next : Nat) : List α := slots.drop next ++ slots.take next

theorem contents_perm (slots : List α) (next : Nat) : (contents slots next).Perm slots := by
  unfold contents
  exact List.perm_append_comm.trans (by rw [List.take_append_drop])

theorem contents_replicate (size : Nat) (x : α) {next : Nat} (h : next ≤ size) :
    contents (List.replicate size x) next = List.replicate size x := by
  unfold contents
  rw [List.drop_replicate, List.take_replicate, List.replicate_append_replicate]
  congr 1
  omega

theorem contents_set {slots : List α} {next : Nat} (h : next < slots.length) (x : α) :
    contents (slots.set next x) (if next + 1 = slots.length then 0 else next + 1) =
      (contents slots next).tail ++ [x] := by
  have htake := Arrays.take_succ_set h x
  have hdrop : (slots.set next x).drop (next + 1) = slots.drop (next + 1) :=
    List.drop_set_of_lt (Nat.lt_succ_self next)
  have htail : (contents slots next).tail = slots.drop (next + 1) ++ slots.take next := by
    unfold contents
    rw [List.drop_eq_getElem_cons h, List.cons_append, List.tail_cons]
  rw [htail]
  split
  case isTrue hlast =>
    have hend : slots.drop (next + 1) = [] := by rw [hlast, List.drop_length]
    have hfull : (slots.set next x).take (next + 1) = slots.set next x := by
      rw [hlast, ← List.length_set (a := x) (i := next), List.take_length]
    rw [hend, List.nil_append, ← htake, hfull]
    exact List.append_nil _
  case isFalse hmore =>
    unfold contents
    rw [hdrop, htake, List.append_assoc]

theorem rtake_append_singleton {l : List α} {n : Nat} (h0 : 0 < n) (h : n ≤ l.length) (x : α) :
    (l ++ [x]).rtake n = (l.rtake n).tail ++ [x] := by
  unfold List.rtake
  rw [List.length_append, List.length_singleton, List.drop_append_of_le_length (by omega),
    List.tail_drop]
  congr 2
  omega

/-! ## Slots that start out empty

`e` stands for an empty slot. -/

theorem rtake_replicate_append (n : Nat) (e : α) (l : List α) :
    (List.replicate n e ++ l).rtake n = List.replicate (n - l.length) e ++ l.rtake n := by
  unfold List.rtake
  rw [List.drop_append, List.drop_replicate, List.length_append, List.length_replicate]
  congr 2 <;> omega

theorem filter_ne_perm [DecidableEq α] {slots written : List α} {next n : Nat} {e : α}
    (h : contents slots next = (List.replicate n e ++ written).rtake n)
    (hwritten : ∀ x ∈ written, x ≠ e) : (slots.filter (· ≠ e)).Perm (written.rtake n) := by
  have hperm := (contents_perm slots next).filter (· ≠ e)
  refine hperm.symm.trans (List.Perm.of_eq ?_)
  rw [h, rtake_replicate_append, List.filter_append, List.filter_replicate_of_neg (by simp),
    List.nil_append, List.filter_eq_self]
  intro x hx
  simpa using hwritten x (List.mem_of_mem_drop hx)

end RingBuffer
