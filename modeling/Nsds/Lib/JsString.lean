/-!
# Strings of JavaScript

Sequences of UTF-16 code units.
-/

/-- A string of JavaScript is a list of UTF-16 code units. -/
abbrev JsString := List UInt16

namespace JsString

/-- A literal, in which every character is one code unit. -/
def js (literal : String) : JsString := literal.toList.map fun c => c.toNat.toUInt16

theorem eq_of_prefixes (texts : List JsString)
    (hdistinct : ∀ a ∈ texts, ∀ b ∈ texts, a <+: b → a = b) {a b s : JsString} (ha : a ∈ texts)
    (hb : b ∈ texts) (has : a <+: s) (hbs : b <+: s) : a = b := by
  rcases List.prefix_or_prefix_of_prefix has hbs with h | h
  · exact hdistinct a ha b hb h
  · exact (hdistinct b hb a ha h).symm

/-! ## Numbers in a text -/

/-- A natural number, converted to a string. -/
def decimal (n : Nat) : JsString := js (toString n)

abbrev IsDigit (u : UInt16) : Prop := 48 ≤ u.toNat ∧ u.toNat ≤ 57

theorem digit_toNat {c : Char} {n : Nat} (hc : c ∈ Nat.toDigits 10 n) :
    48 ≤ c.toNat ∧ c.toNat ≤ 57 := by
  have hdigit : c.isDigit = true := Nat.isDigit_of_mem_toDigits (by decide) (by decide) hc
  simp only [Char.isDigit, Bool.and_eq_true, decide_eq_true_eq] at hdigit
  exact hdigit

theorem toNat_unit {c : Char} {n : Nat} (hc : c ∈ Nat.toDigits 10 n) :
    c.toNat.toUInt16.toNat = c.toNat := by
  have := (digit_toNat hc).2
  exact Nat.mod_eq_of_lt (by omega)

theorem decimal_isDigit {n : Nat} {u : UInt16} (hu : u ∈ decimal n) : IsDigit u := by
  have hlist : (toString n).toList = Nat.toDigits 10 n := by simp
  rw [decimal, js, hlist] at hu
  obtain ⟨c, hc, rfl⟩ := List.mem_map.mp hu
  rw [IsDigit, toNat_unit hc]
  exact digit_toNat hc

theorem decimal_chars (n : Nat) :
    (decimal n).map (fun u => Char.ofNat u.toNat) = Nat.toDigits 10 n := by
  have hlist : (toString n).toList = Nat.toDigits 10 n := by simp
  rw [decimal, js, hlist, List.map_map]
  refine (List.map_congr_left fun c hc => ?_).trans (List.map_id _)
  rw [Function.comp_apply, toNat_unit hc, Char.ofNat_toNat, id]

theorem decimal_injective {m n : Nat} (h : decimal m = decimal n) : m = n := by
  have hdigits : Nat.toDigits 10 m = Nat.toDigits 10 n := by
    rw [← decimal_chars, h, decimal_chars]
  rw [← Nat.ofDigitChars_ten_toDigits (n := m), hdigits, Nat.ofDigitChars_ten_toDigits]

theorem append_decimal_inj {a b : JsString} {m n : Nat} {u v : UInt16} (hu : ¬ IsDigit u)
    (hv : ¬ IsDigit v) (h : a ++ u :: decimal m = b ++ v :: decimal n) :
    a = b ∧ m = n := by
  rcases List.append_eq_append_iff.mp h with ⟨t, hb, ht⟩ | ⟨t, ha, ht⟩
  · rcases t with _ | ⟨w, t⟩
    · obtain ⟨-, hdecimal⟩ := List.cons_eq_cons.mp ht
      exact ⟨by simpa using hb.symm, decimal_injective hdecimal⟩
    · obtain ⟨-, hdecimal⟩ := List.cons_eq_cons.mp ht
      have hmem : v ∈ decimal m := by simp [hdecimal]
      exact absurd (decimal_isDigit hmem) hv
  · rcases t with _ | ⟨w, t⟩
    · obtain ⟨-, hdecimal⟩ := List.cons_eq_cons.mp ht
      exact ⟨by simpa using ha, decimal_injective hdecimal.symm⟩
    · obtain ⟨-, hdecimal⟩ := List.cons_eq_cons.mp ht
      have hmem : u ∈ decimal n := by simp [hdecimal]
      exact absurd (decimal_isDigit hmem) hu

end JsString
