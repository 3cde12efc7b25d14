import Nsds.Lib.MachineInt
import Nsds.Lib.Pairs
import Nsds.Lib.Split

/-!
# `spark/NSDS_spark_tutorial`, `wordcount/WordCountModified.java`

How many words, and how many lines, start with every character. Strings are sequences of
UTF-16 code units, as they are in Java.
-/

namespace Nsds.WordCountModified

open MachineInt Pairs Split

/-- UTF-16 code units. -/
abbrev JavaString := List UInt16

def space : UInt16 := ' '.toNat.toUInt16

/-- `toLowerCase` depends on the locale, and may change the length, but makes nothing of the empty
string only. -/
structure Locale where
  toLowerCase : JavaString → JavaString
  toLowerCase_eq_nil : ∀ s, toLowerCase s = [] ↔ s = []

/-- `s.substring(beginIndex, endIndex)`, which throws if there is no such part. -/
def substring (s : JavaString) (beginIndex endIndex : Nat) : Option JavaString :=
  if beginIndex ≤ endIndex ∧ endIndex ≤ s.length then some ((s.take endIndex).drop beginIndex)
  else none

/-- `mapToPair(s -> new Tuple2<>(s.substring(0, 1), 1)).reduceByKey((a, b) -> a + b).collect()`. -/
def countFirst (texts : List JavaString) : Option (List (JavaString × Int)) :=
  (texts.mapM fun s => (substring s 0 1).map fun first => (first, 1)).map
    (reduceByKey fun a b => wrap 32 (a + b))

def q1 (locale : Locale) (lines : List JavaString) : Option (List (JavaString × Int)) :=
  let words := lines.flatMap (split space)
  countFirst (words.map locale.toLowerCase)

def q2 (locale : Locale) (lines : List JavaString) : Option (List (JavaString × Int)) :=
  countFirst (lines.map locale.toLowerCase)

/-! ## Counting first characters -/

/-- How many texts start with `c`. -/
def starting (c : UInt16) (texts : List JavaString) : Nat :=
  texts.countP fun text => text.head? = some c

/-- The query does not throw, and has one row for every character that some of `texts` start
with, with their number. -/
def Counts (texts : List JavaString) (result : Option (List (JavaString × Int))) : Prop :=
  ∃ rows, result = some rows ∧ (rows.map Prod.fst).Nodup ∧
    ∀ s n, (s, n) ∈ rows ↔ ∃ c, s = [c] ∧ 0 < starting c texts ∧ n = starting c texts

theorem substring_zero_one (s : JavaString) :
    substring s 0 1 = s.head?.map fun c => [c] := by
  rcases s with _ | ⟨c, s⟩ <;> simp [substring]

theorem mapM_substring (texts : List JavaString) :
    (texts.mapM fun s => (substring s 0 1).map fun first => (first, (1 : Int))) =
      if [] ∈ texts then none else some (texts.map fun s => (s.take 1, 1)) := by
  induction texts with
  | nil => rfl
  | cons text texts ih =>
    rw [List.mapM_cons, ih, substring_zero_one]
    rcases text with _ | ⟨c, text⟩
    · simp
    · by_cases h : [] ∈ texts <;> simp [h]

theorem countFirst_eq (texts : List JavaString) :
    countFirst texts = if [] ∈ texts then none else
      some (reduceByKey (fun a b => wrap 32 (a + b)) (texts.map fun s => (s.take 1, 1))) := by
  unfold countFirst
  rw [mapM_substring]
  split <;> rfl

theorem reduce_replicate (n : Nat) :
    reduce (fun a b => wrap 32 (a + b)) (List.replicate n 1) =
      if n = 0 then none else some (wrap 32 n) := by
  rcases n with _ | n
  · rfl
  · rw [List.replicate_succ, reduce, foldl_wrap _ _ _ (by rfl)]
    simp [Int.add_comm]

theorem valuesOf_ones (texts : List JavaString) (s : JavaString) :
    valuesOf (texts.map fun text => (text.take 1, (1 : Int))) s =
      List.replicate (texts.countP fun text => text.take 1 = s) 1 := by
  unfold valuesOf
  induction texts with
  | nil => rfl
  | cons text texts ih =>
    by_cases h : text.take 1 = s
    · simp_all [List.replicate_succ]
    · simp_all

theorem mem_countFirst {texts : List JavaString} {s : JavaString} {n : Int} :
    (s, n) ∈ reduceByKey (fun a b => wrap 32 (a + b)) (texts.map fun text => (text.take 1, 1)) ↔
      0 < texts.countP (fun text => text.take 1 = s) ∧
        n = wrap 32 (texts.countP fun text => text.take 1 = s) := by
  rw [mem_reduceByKey, valuesOf_ones, reduce_replicate]
  split
  · simp [*]
  · rename_i hne
    rw [Option.some.injEq, eq_comm, iff_and_self]
    exact fun _ => Nat.pos_of_ne_zero hne

theorem starting_eq (c : UInt16) (texts : List JavaString) :
    starting c texts = texts.countP fun text => text.take 1 = [c] := by
  refine List.countP_congr fun text _ => ?_
  rcases text with _ | ⟨d, text⟩ <;> simp

theorem counts_countFirst_iff (texts : List JavaString) :
    Counts texts (countFirst texts) ↔ [] ∉ texts ∧ ∀ c, starting c texts < 2 ^ 31 := by
  unfold Counts
  rw [countFirst_eq]
  by_cases hnil : [] ∈ texts
  · simp [hnil]
  · simp only [hnil, if_false, Option.some.injEq, exists_eq_left', not_false_eq_true, true_and,
      nodup_reduceByKey, mem_countFirst]
    constructor
    · intro h c
      by_contra hmany
      have hpos : 0 < starting c texts := lt_of_lt_of_le (by decide) (not_lt.mp hmany)
      have hwrap := ((h [c] (starting c texts)).mpr ⟨c, rfl, hpos, rfl⟩).2
      rw [← starting_eq] at hwrap
      have := wrap_int_lt (starting c texts)
      omega
    · intro hfew s n
      have hwrap (c : UInt16) : wrap 32 (starting c texts) = starting c texts := by
        have := hfew c
        apply wrap_of_int <;> omega
      constructor
      · rintro ⟨hpos, hn⟩
        obtain ⟨text, htext, hfirst⟩ := List.countP_pos_iff.mp hpos
        rcases text with _ | ⟨c, text⟩
        · exact absurd htext hnil
        · obtain rfl : [c] = s := of_decide_eq_true hfirst
          rw [← starting_eq] at hpos hn
          exact ⟨c, rfl, hpos, hn.trans (hwrap c)⟩
      · rintro ⟨c, rfl, hpos, hn⟩
        rw [← starting_eq]
        exact ⟨hpos, hn.trans (hwrap c).symm⟩

/-! ## All texts -/

section

variable (locale : Locale) (lines : List JavaString)

/-- The words of all lines, in lower case. -/
def lowerWords : List JavaString := (lines.flatMap (words space)).map locale.toLowerCase

/-- All lines that are not empty, in lower case. -/
def lowerLines : List JavaString := (lines.filter (· ≠ [])).map locale.toLowerCase

/-- Neither query throws, and both count what they are to count. -/
def Answered : Prop :=
  Counts (lowerWords locale lines) (q1 locale lines) ∧
    Counts (lowerLines locale lines) (q2 locale lines)

/-- No line is empty, starts with a space or has two in a row, if one leaves out the spaces at its
end. No character starts too many words or lines for an `int`. -/
def SingleSpaced : Prop :=
  (∀ line ∈ lines, line ≠ [] ∧ Tight space line) ∧
    ∀ c, starting c (lowerWords locale lines) < 2 ^ 31 ∧
      starting c (lowerLines locale lines) < 2 ^ 31

end

variable {locale : Locale} {lines : List JavaString}

theorem starting_lower (c : UInt16) (texts : List JavaString) :
    starting c ((texts.filter (· ≠ [])).map locale.toLowerCase) =
      starting c (texts.map locale.toLowerCase) := by
  induction texts with
  | nil => rfl
  | cons text texts ih =>
    unfold starting at ih ⊢
    by_cases htext : text = []
    · have hnil : locale.toLowerCase text = [] := (locale.toLowerCase_eq_nil text).mpr htext
      rw [List.filter_cons_of_neg (by simpa using htext), ih, List.map_cons,
        List.countP_cons_of_neg (by simp [hnil])]
    · rw [List.filter_cons_of_pos (by simpa using htext), List.map_cons, List.map_cons,
        List.countP_cons, List.countP_cons, ih]

theorem nil_mem_map_lower (texts : List JavaString) :
    [] ∈ texts.map locale.toLowerCase ↔ [] ∈ texts := by
  simp [locale.toLowerCase_eq_nil]

theorem counts_lower_iff (texts : List JavaString) :
    Counts ((texts.filter (· ≠ [])).map locale.toLowerCase)
        (countFirst (texts.map locale.toLowerCase)) ↔
      [] ∉ texts ∧
        ∀ c, starting c ((texts.filter (· ≠ [])).map locale.toLowerCase) < 2 ^ 31 := by
  have hcounts := counts_countFirst_iff (texts.map locale.toLowerCase)
  rw [nil_mem_map_lower] at hcounts
  simp only [starting_lower, ← hcounts]
  unfold Counts
  simp only [starting_lower]

theorem filter_flatMap_split (lines : List JavaString) :
    (lines.flatMap (split space)).filter (· ≠ []) = lines.flatMap (words space) := by
  rw [List.filter_flatMap]
  simp only [filter_split]

/-- Both queries count what they are to count exactly if no piece of a text is empty, and no
count overflows. -/
theorem queries_answered_iff (locale : Locale) (lines : List JavaString) :
    Answered locale lines ↔ SingleSpaced locale lines := by
  unfold Answered SingleSpaced lowerWords lowerLines q1 q2
  rw [← filter_flatMap_split, counts_lower_iff, counts_lower_iff, forall_and]
  have hwords : [] ∉ lines.flatMap (split space) ↔
      ∀ line ∈ lines, line ≠ [] ∧ Tight space line := by
    simp only [List.mem_flatMap, not_exists, not_and, nil_not_mem_split_iff]
  rw [hwords]
  constructor
  · rintro ⟨⟨htight, hwords⟩, -, hlines⟩
    exact ⟨htight, hwords, hlines⟩
  · rintro ⟨htight, hwords, hlines⟩
    exact ⟨⟨htight, hwords⟩, fun hnil => (htight [] hnil).1 rfl, hlines⟩

/-! ## A text of two words -/

def ascii (text : String) : JavaString := text.toList.map fun c => c.toNat.toUInt16

/-- A locale of which only the letters of ASCII matter. -/
def asciiLocale : Locale where
  toLowerCase s := s.map fun c => if 65 ≤ c ∧ c ≤ 90 then c + 32 else c
  toLowerCase_eq_nil _ := List.map_eq_nil_iff

/-- Two spaces between two words, or an empty line, make the queries throw. -/
theorem empty_piece_throws : ¬ Answered asciiLocale [ascii "Hello  world"] ∧
    ¬ Answered asciiLocale [ascii "Hello world", ascii ""] := by
  constructor
  · have hthrows : q1 asciiLocale [ascii "Hello  world"] = none := by decide
    rintro ⟨⟨rows, hrows, -⟩, -⟩
    simp [hthrows] at hrows
  · have hthrows : q2 asciiLocale [ascii "Hello world", ascii ""] = none := by decide
    rintro ⟨-, rows, hrows, -⟩
    simp [hthrows] at hrows

end Nsds.WordCountModified
