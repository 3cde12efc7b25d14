import Mathlib.Data.List.Basic

/-!
# Texts of JSON

The grammar of RFC 8259, and a scanner that every text passes: outside of strings only the
characters of tokens can stand.
-/

namespace Json

/-- White space. -/
def Blank (text : List Char) : Prop := text ⊆ " \t\n\r".toList

def Digits (text : List Char) : Prop := text ≠ [] ∧ text ⊆ "0123456789".toList

/-- A number, in its four parts. -/
structure Number (sign int frac exp : List Char) : Prop where
  signed : sign ∈ ["".toList, "-".toList]
  integer : Digits int
  leading : int.head? = some '0' → int = "0".toList
  fraction : frac = [] ∨ ∃ digits, Digits digits ∧ frac = '.' :: digits
  exponent : exp = [] ∨ ∃ e ∈ "eE".toList, ∃ sign ∈ ["".toList, "+".toList, "-".toList],
    ∃ digits, Digits digits ∧ exp = e :: (sign ++ digits)

/-- What can stand between quotes. -/
inductive Chars : List Char → Prop
  | nil : Chars []
  | plain {c : Char} {rest : List Char} (h : c ≠ '"' ∧ c ≠ '\\' ∧ 32 ≤ c.toNat)
      (hrest : Chars rest) : Chars (c :: rest)
  | escape {c : Char} {rest : List Char} (h : c ∈ "\"\\/bfnrt".toList)
      (hrest : Chars rest) : Chars ('\\' :: c :: rest)
  | unicode {code rest : List Char}
      (h : code.length = 4 ∧ code ⊆ "0123456789ABCDEFabcdef".toList)
      (hrest : Chars rest) : Chars ('\\' :: 'u' :: (code ++ rest))

/-- A string token. -/
def quoted (chars : List Char) : List Char := '"' :: chars ++ ['"']

/-- A member of an object, with the blanks around its name. -/
structure Member where
  before : List Char
  name : List Char
  after : List Char
  value : List Char

/-- A member of an object as it is written. -/
def Member.text (member : Member) : List Char :=
  member.before ++ quoted member.name ++ member.after ++ ':' :: member.value

structure Member.Spelled (member : Member) : Prop where
  before : Blank member.before
  name : Chars member.name
  after : Blank member.after

/-- Items with commas between them. -/
def commas : List (List Char) → List Char
  | [] => []
  | [item] => item
  | item :: items => item ++ ',' :: commas items

/-- A value, with the blanks around it. -/
inductive Text : List Char → Prop
  | blanks {before text after : List Char} (hbefore : Blank before) (htext : Text text)
      (hafter : Blank after) : Text (before ++ text ++ after)
  | word {text : List Char} (h : text ∈ ["null".toList, "true".toList, "false".toList]) : Text text
  | number {sign int frac exp : List Char} (h : Number sign int frac exp) :
      Text (sign ++ int ++ frac ++ exp)
  | string {chars : List Char} (h : Chars chars) : Text (quoted chars)
  | array {blank : List Char} {items : List (List Char)} (hblank : Blank blank)
      (hitems : ∀ item ∈ items, Text item) : Text ('[' :: (blank ++ commas items ++ [']']))
  | object {blank : List Char} {members : List Member} (hblank : Blank blank)
      (hmembers : ∀ member ∈ members, member.Spelled)
      (hvalues : ∀ member ∈ members, Text member.value) :
      Text ('\x7b' :: (blank ++ commas (members.map Member.text) ++ ['\x7d']))

/-- An object with these members. -/
def Object (members : List Member) (text : List Char) : Prop :=
  (∀ member ∈ members, member.Spelled ∧ Text member.value) ∧
    ∃ before blank after, Blank before ∧ Blank blank ∧ Blank after ∧
      text = before ++ '\x7b' :: (blank ++ commas (members.map Member.text) ++ ['\x7d']) ++ after

example : Object [{ before := [], name := ['n'], after := [], value := "1".toList }]
    "\x7b\"n\":1\x7d".toList := by
  have hone : Number "".toList "1".toList "".toList "".toList :=
    ⟨by decide, ⟨by decide, by decide⟩, by decide, .inl rfl, .inl rfl⟩
  have hname : Chars ['n'] := .plain (by decide) .nil
  have hblank : Blank [] := by simp [Blank]
  exact ⟨List.forall_mem_singleton.mpr ⟨⟨hblank, hname, hblank⟩, .number hone⟩,
    [], [], [], hblank, hblank, hblank, by decide⟩

theorem Object.toText {members : List Member} {text : List Char} (h : Object members text) :
    Text text := by
  obtain ⟨hmembers, before, blank, after, hbefore, hblank, hafter, rfl⟩ := h
  exact .blanks hbefore
    (.object hblank (fun m hm => (hmembers m hm).1) fun m hm => (hmembers m hm).2) hafter

/-! ## The scanner -/

/-- Whether a scan is inside of a string, and behind a backslash. -/
inductive Mode
  | outside
  | inside
  | escaped
deriving DecidableEq, Repr

def tokenChars : List Char := "\x7b\x7d[]:, \t\n\r0123456789+-.Eaeflnrstu".toList

/-- `none` is a character that can be part of no token. -/
def scan : Mode → Char → Option Mode
  | .outside, c =>
    if c = '"' then some .inside else if c ∈ tokenChars then some .outside else none
  | .inside, c =>
    if c = '"' then some .outside else if c = '\\' then some .escaped else some .inside
  | .escaped, _ => some .inside

def scanAll (mode : Mode) (text : List Char) : Option Mode := text.foldlM scan mode

theorem scanAll_append (mode : Mode) (text text' : List Char) :
    scanAll mode (text ++ text') = (scanAll mode text).bind fun mode => scanAll mode text' :=
  List.foldlM_append

theorem scanAll_cons (mode : Mode) (c : Char) (text : List Char) :
    scanAll mode (c :: text) = (scan mode c).bind fun mode => scanAll mode text :=
  List.foldlM_cons

theorem scanAll_escape (c : Char) (text : List Char) :
    scanAll .inside ('\\' :: c :: text) = scanAll .inside text := by
  rw [scanAll_cons]
  exact scanAll_cons .escaped c text

theorem scan_token {c : Char} (hc : c ∈ tokenChars) : scan .outside c = some .outside := by
  have hquote : c ≠ '"' := fun h => absurd (h ▸ hc) (by decide)
  simp [scan, hquote, hc]

/-- The scanner is outside of strings before and after. -/
def Passes (text : List Char) : Prop := scanAll .outside text = some .outside

instance (text : List Char) : Decidable (Passes text) :=
  inferInstanceAs (Decidable (scanAll .outside text = some .outside))

theorem passes_nil : Passes [] := rfl

theorem Passes.append {text text' : List Char} (h : Passes text) (h' : Passes text') :
    Passes (text ++ text') := by
  unfold Passes at *
  rw [scanAll_append, h]
  exact h'

theorem Passes.cons {c : Char} {text : List Char} (hc : c ∈ tokenChars) (h : Passes text) :
    Passes (c :: text) := by
  unfold Passes
  rw [scanAll_cons, scan_token hc]
  exact h

theorem passes_of_subset {text : List Char} (h : text ⊆ tokenChars) : Passes text := by
  induction text with
  | nil => exact passes_nil
  | cons c text ih =>
    rw [List.cons_subset] at h
    exact (ih h.2).cons h.1

theorem Blank.passes {text : List Char} (h : Blank text) : Passes text :=
  passes_of_subset (List.Subset.trans h (by decide))

theorem Digits.passes {text : List Char} (h : Digits text) : Passes text :=
  passes_of_subset (List.Subset.trans h.2 (by decide))

theorem Number.passes {sign int frac exp : List Char} (h : Number sign int frac exp) :
    Passes (sign ++ int ++ frac ++ exp) := by
  have hsign : ∀ sign ∈ ["".toList, "+".toList, "-".toList], Passes sign := by decide
  refine (((hsign sign ?_).append h.integer.passes).append ?_).append ?_
  · have := h.signed
    simp only [List.mem_cons] at this ⊢
    tauto
  · rcases h.fraction with rfl | ⟨digits, hdigits, rfl⟩
    · exact passes_nil
    · exact hdigits.passes.cons (by decide)
  · rcases h.exponent with rfl | ⟨e, he, sign, hmem, digits, hdigits, rfl⟩
    · exact passes_nil
    · have hall : "eE".toList ⊆ tokenChars := by decide
      exact ((hsign sign hmem).append hdigits.passes).cons (hall he)

theorem scanAll_plain {text : List Char} (hquote : '"' ∉ text) (hescape : '\\' ∉ text) :
    scanAll .inside text = some .inside := by
  induction text with
  | nil => rfl
  | cons c text ih =>
    rw [List.mem_cons, not_or] at hquote hescape
    rw [scanAll_cons]
    simpa [scan, Ne.symm hquote.1, Ne.symm hescape.1] using ih hquote.2 hescape.2

theorem Chars.scanAll_inside {chars : List Char} (h : Chars chars) :
    scanAll .inside chars = some .inside := by
  induction h with
  | nil => rfl
  | plain h _ ih =>
    rw [scanAll_cons]
    simpa [scan, h.1, h.2.1] using ih
  | escape h _ ih => rwa [scanAll_escape]
  | @unicode code rest h _ ih =>
    have hquote : '"' ∉ code := fun hmem => absurd (h.2 hmem) (by decide)
    have hescape : '\\' ∉ code := fun hmem => absurd (h.2 hmem) (by decide)
    rw [scanAll_escape, scanAll_append, scanAll_plain hquote hescape]
    exact ih

theorem passes_quoted {chars : List Char} (h : scanAll .inside chars = some .inside) :
    Passes (quoted chars) := by
  unfold Passes quoted
  rw [List.cons_append, scanAll_cons]
  simp only [scan, if_pos, Option.bind_some]
  rw [scanAll_append, h]
  rfl

theorem passes_commas {items : List (List Char)} (h : ∀ item ∈ items, Passes item) :
    Passes (commas items) := by
  fun_induction commas items with
  | case1 => exact passes_nil
  | case2 item => exact h item (by simp)
  | case3 item items _ ih =>
    rw [List.forall_mem_cons] at h
    exact h.1.append ((ih h.2).cons (by decide))

theorem Member.passes {member : Member} (h : member.Spelled) (hvalue : Passes member.value) :
    Passes member.text :=
  ((h.before.passes.append (passes_quoted h.name.scanAll_inside)).append h.after.passes).append
    (hvalue.cons (by decide))

theorem Text.passes {text : List Char} (h : Text text) : Passes text := by
  induction h with
  | blanks hbefore _ hafter ih => exact (hbefore.passes.append ih).append hafter.passes
  | word h =>
    have hall : ∀ word ∈ ["null".toList, "true".toList, "false".toList], Passes word := by decide
    exact hall _ h
  | number h => exact h.passes
  | string h => exact passes_quoted h.scanAll_inside
  | array hblank _ ih =>
    exact ((hblank.passes.append (passes_commas ih)).append (by decide)).cons (by decide)
  | object hblank hmembers _ ih =>
    refine ((hblank.passes.append (passes_commas ?_)).append (by decide)).cons (by decide)
    exact List.forall_mem_map.mpr fun member hmember =>
      Member.passes (hmembers member hmember) (ih member hmember)

theorem not_text {before after : List Char} {c : Char} (hbefore : Passes before)
    (hquote : c ≠ '"') (hc : c ∉ tokenChars) : ¬ Text (before ++ c :: after) := by
  intro htext
  have hpasses := htext.passes
  unfold Passes at hpasses hbefore
  rw [scanAll_append, hbefore, Option.bind_some, scanAll_cons] at hpasses
  simp [scan, hquote, hc] at hpasses

end Json
