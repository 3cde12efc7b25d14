import Mathlib.Data.List.Basic

/-!
# Strings of C

Arrays of characters, in which a string ends before the first null character.
-/

namespace CString

def nul : Char := '\x00'

/-- A `char` array of a fixed size. -/
structure Buffer (size : Nat) where
  chars : List Char
  length_eq : chars.length = size
deriving DecidableEq, Repr

variable {size : Nat}

namespace Buffer

def zeros (size : Nat) : Buffer size where
  chars := List.replicate size nul
  length_eq := List.length_replicate

/-- What would lie beyond the end is not written. -/
def write (buf : Buffer size) (offset : Nat) (text : List Char) : Buffer size where
  chars := (buf.chars.take offset ++ text ++ buf.chars.drop (offset + text.length)).take size
  length_eq := by
    have := buf.length_eq
    simp only [List.length_take, List.length_append, List.length_drop]
    omega

/-- `snprintf(&buf[offset], n, ...)` writes less than `n` characters of the text and a null
character, and returns the length of the text. -/
def snprintf (buf : Buffer size) (offset n : Nat) (text : List Char) : Buffer size × Nat :=
  if n = 0 then (buf, text.length)
  else (buf.write offset (text.take (n - 1) ++ [nul]), text.length)

/-- Its length is that of `strlen`. -/
def string (buf : Buffer size) : List Char := buf.chars.takeWhile fun c => c ≠ nul

theorem write_append {buf : Buffer size} {s t : List Char} (hs : s <+: buf.chars)
    (hfits : s.length + t.length ≤ size) : s ++ t <+: (buf.write s.length t).chars := by
  obtain ⟨rest, hrest⟩ := hs
  have hlen := buf.length_eq
  rw [← hrest, List.length_append] at hlen
  unfold write
  simp only [← hrest, List.take_left]
  exact List.prefix_take_iff.mpr ⟨List.prefix_append _ _, by simpa using hfits⟩

theorem snprintf_append {buf : Buffer size} {s t : List Char} {n : Nat} (hs : s <+: buf.chars)
    (hn : s.length + n = size) (hfits : t.length < n) :
    s ++ t ++ [nul] <+: (buf.snprintf s.length n t).1.chars := by
  unfold snprintf
  rw [if_neg (by omega), List.take_of_length_le (by omega), List.append_assoc]
  exact write_append hs (by simp; omega)

theorem snprintf_length (buf : Buffer size) (offset n : Nat) (text : List Char) :
    (buf.snprintf offset n text).2 = text.length := by
  unfold snprintf
  split <;> rfl

theorem string_eq {buf : Buffer size} {s : List Char} (hs : s ++ [nul] <+: buf.chars)
    (hnul : nul ∉ s) : buf.string = s := by
  obtain ⟨rest, hrest⟩ := hs
  unfold string
  rw [← hrest, List.append_assoc, List.takeWhile_append_of_pos]
  · simp
  · intro c hc
    have hne : c ≠ nul := fun h => hnul (h ▸ hc)
    simpa using hne

end Buffer

/-! ## Numbers -/

def hexDigits : List Char := "0123456789abcdef".toList

theorem mem_toDigits {b n : Nat} (hb : 1 < b ∧ b ≤ 16) {c : Char} (hc : c ∈ Nat.toDigits b n) :
    c ∈ hexDigits := by
  have hdigit : ∀ d < 16, Nat.digitChar d ∈ hexDigits := by decide
  induction n using Nat.strongRecOn with
  | ind n ih =>
    rw [Nat.toDigits_eq_if hb.1] at hc
    split at hc
    · rw [List.mem_singleton.mp hc]
      exact hdigit n (by omega)
    · rcases List.mem_append.mp hc with hc | hc
      · exact ih (n / b) (Nat.div_lt_self (by omega) hb.1) hc
      · rw [List.mem_singleton.mp hc]
        exact hdigit _ (Nat.lt_of_lt_of_le (Nat.mod_lt n (by omega)) hb.2)

end CString
