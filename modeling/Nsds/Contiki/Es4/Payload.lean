import Nsds.Contiki.Es4.Code
import Nsds.Lib.Json

/-!
# The payload

What is published, as a text. The parity of the number stands in it without quotes, so that
it is no JSON.
-/

namespace Nsds.Es4

open CString

/-! ## The text of an address -/

def spellGroup (addr : IpAddr) : List Char × Int → Nat → List Char × Int
  | (text, f), i =>
    let digits := Nat.toDigits 16 (addr.group i).toNat
    if addr.group i = 0 ∧ f ≥ 0 then (if f = 0 then text ++ "::".toList else text, f + 1)
    else if f > 0 then (text ++ digits, -1)
    else if i > 0 then (text ++ ":".toList ++ digits, f)
    else (text ++ digits, f)

/-- The text of an address. -/
def addressText (addr : IpAddr) : List Char := (indices.foldl (spellGroup addr) ([], 0)).1

/-- The buffer holds the text, which has at most `n` characters. -/
structure Prints (n : Nat) (s : Printing 64) (text : List Char) : Prop where
  starts : text ++ [nul] <+: s.buf.chars
  len : s.len.toNat = text.length
  chars : text ⊆ ':' :: hexDigits
  short : text.length ≤ n

theorem Prints.mono {n m : Nat} {s : Printing 64} {text : List Char} (h : Prints n s text)
    (hnm : n ≤ m) : Prints m s text := { h with short := Nat.le_trans h.short hnm }

theorem Prints.setF {n : Nat} {s : Printing 64} {text : List Char} (h : Prints n s text) (f : Int) :
    Prints n { s with f := f } text := ⟨h.starts, h.len, h.chars, h.short⟩

theorem Prints.print {n m : Nat} {s : Printing 64} {text : List Char} (h : Prints n s text)
    (new : List Char) (hnew : new ⊆ ':' :: hexDigits) (hshort : new.length ≤ m)
    (hfits : n + m < 64) :
    Prints (n + m) (s.print 64 new) (text ++ new) := by
  have htext := h.short
  have h64 : (64 : UInt8).toNat = 64 := rfl
  unfold Printing.print
  refine ⟨?_, ?_, List.append_subset.mpr ⟨h.chars, hnew⟩, ?_⟩
  · rw [h.len, h64]
    exact Buffer.snprintf_append ((List.prefix_append _ _).trans h.starts) (by omega) (by omega)
  · have hwritten : new.length.toUInt8.toNat = new.length := Nat.mod_eq_of_lt (by omega)
    simp only [Buffer.snprintf_length, UInt8.toNat_add, h.len, hwritten, List.length_append]
    omega
  · rw [List.length_append]
    omega

theorem digits_subset (a : UInt16) : Nat.toDigits 16 a.toNat ⊆ ':' :: hexDigits :=
  fun _ hc => List.mem_cons_of_mem _ (mem_toDigits (by decide) hc)

theorem length_digits (a : UInt16) : (Nat.toDigits 16 a.toNat).length ≤ 4 :=
  (Nat.length_toDigits_le_iff (by decide) (by decide)).mpr a.toNat_lt

theorem Prints.next {n : Nat} {s : Printing 64} {t : List Char × Int} (h : Prints n s t.1)
    (hf : s.f = t.2) (hfits : n + 5 < 64) (addr : IpAddr) (i : Nat) :
    Prints (n + 5) (s.next 64 addr i) (spellGroup addr t i).1 ∧
      (s.next 64 addr i).f = (spellGroup addr t i).2 := by
  obtain ⟨text, f⟩ := t
  obtain rfl : s.f = f := hf
  have hcolons := h.print "::".toList (by decide) (m := 2) (by decide) (by omega)
  have hcolon := h.print ":".toList (by decide) (m := 1) (by decide) (by omega)
  have hdigits {m : Nat} {s : Printing 64} {text : List Char} (h : Prints m s text)
      (hm : m ≤ n + 1) : Prints (n + 5) (s.print 64 (Nat.toDigits 16 (addr.group i).toNat))
        (text ++ Nat.toDigits 16 (addr.group i).toNat) :=
    (h.print _ (digits_subset _) (length_digits _) (by omega)).mono (by omega)
  unfold Printing.next spellGroup
  simp only
  split_ifs
  · exact ⟨(hcolons.setF _).mono (by omega), rfl⟩
  · exact ⟨(h.setF _).mono (by omega), rfl⟩
  · exact ⟨hdigits (h.setF _) (by omega), rfl⟩
  · exact ⟨hdigits hcolon (by omega), rfl⟩
  · exact ⟨hdigits h (by omega), rfl⟩

theorem Prints.run {l : List Nat} {n : Nat} {s : Printing 64} {t : List Char × Int}
    (h : Prints n s t.1) (hf : s.f = t.2) (addr : IpAddr) (hfits : n + 5 * l.length < 64) :
    Prints (n + 5 * l.length) (l.foldl (Printing.next 64 addr) s)
      (l.foldl (spellGroup addr) t).1 := by
  induction l generalizing n s t with
  | nil => exact h
  | cons i l ih =>
    rw [List.length_cons] at hfits
    obtain ⟨hnext, hfnext⟩ := h.next hf (by omega) addr i
    exact (ih hnext hfnext (by omega)).mono (by rw [List.length_cons]; omega)

theorem prints_address (addr : IpAddr) : Prints 40
    (indices.foldl (Printing.next 64 addr) { buf := Buffer.zeros 64, len := 0, f := 0 })
    (addressText addr) := by
  have hstart : Prints 0 { buf := Buffer.zeros 64, len := 0, f := 0 } ([] : List Char) :=
    ⟨by decide, rfl, by simp, by simp⟩
  exact hstart.run (l := indices) (t := ([], 0)) rfl addr (by decide)

theorem nul_not_mem_address {text : List Char} (h : text ⊆ ':' :: hexDigits) :
    nul ∉ text := fun hmem => absurd (h hmem) (by decide)

theorem ipaddrSprintf_string (addr : IpAddr) :
    (ipaddrSprintf (Buffer.zeros 64) 64 addr).1.string = addressText addr :=
  Buffer.string_eq (prints_address addr).starts (nul_not_mem_address (prints_address addr).chars)

/-! ## The document -/

theorem length_outcome (ran : Nat) (str : List Char) :
    (outcome ran str).length = (Nat.toDigits 10 ran).length + str.length + 26 := by
  have hhead : ("\x7b".toList ++ "\"Number\":\"".toList).length = 11 := by decide
  have hkey : ("\",".toList ++ "\"Outcome #\":".toList).length = 14 := by decide
  have htail : "\x7d".toList.length = 1 := by decide
  unfold outcome
  simp only [List.length_append] at hhead hkey ⊢
  omega

theorem length_defRoute (defRtStr : List Char) :
    (defRoute defRtStr).length = defRtStr.length + 15 := by
  have hhead : ",\"Def Route\":\"".toList.length = 14 := by decide
  have htail : "\"".toList.length = 1 := by decide
  unfold defRoute
  simp only [List.length_append]
  omega

/-- The buffer starts with the text, and the cursor is behind it. -/
structure Holds (c : Cursor) (text : List Char) : Prop where
  starts : text <+: c.appBuffer.chars
  bufPtr : c.bufPtr = text.length
  remaining : text.length + c.remaining = appBufferSize

theorem print_ok {c : Cursor} {text : List Char} (h : Holds c text) (new : List Char)
    (hfits : text.length + new.length < appBufferSize) :
    ∃ c', c.print new = .ok c' ∧ Holds c' (text ++ new) ∧
      text ++ new ++ [nul] <+: c'.appBuffer.chars := by
  have hremaining := h.remaining
  have hstarts := Buffer.snprintf_append h.starts h.remaining (t := new) (by omega)
  rw [← h.bufPtr] at hstarts
  unfold Cursor.print
  simp only [Buffer.snprintf_length]
  rw [if_neg (by omega)]
  refine ⟨_, rfl, ⟨(List.prefix_append _ _).trans hstarts, ?_, ?_⟩, hstarts⟩
  · rw [h.bufPtr, List.length_append]
  · rw [List.length_append]
    show text.length + new.length + (c.remaining - new.length) = appBufferSize
    omega

def parity (ran : Nat) : List Char := if ran % 2 = 0 then "even".toList else "odd".toList

/-- What is published, whatever was in the buffer. -/
def payload (ran : Nat) (addr : IpAddr) : List Char :=
  outcome ran (parity ran) ++ defRoute (addressText addr) ++ "\x7d\x7d".toList

theorem nul_not_mem_payload (ran : Nat) (addr : IpAddr) : nul ∉ payload ran addr := by
  have hdigits : nul ∉ Nat.toDigits 10 ran := fun hmem =>
    absurd (mem_toDigits (by decide) hmem) (by decide)
  have hparity : nul ∉ parity ran := by
    unfold parity
    split <;> decide
  have haddress := nul_not_mem_address (prints_address addr).chars
  unfold payload outcome defRoute
  simp only [List.mem_append, hdigits, hparity, haddress, or_false]
  decide

theorem document_ok {ran : Nat} (hran : ran < 2 ^ 31) (addr : IpAddr)
    (appBuffer : Buffer appBufferSize) :
    ∃ c, document appBuffer ran (parity ran) addr = .ok c ∧
      c.appBuffer.string = payload ran addr := by
  have hdigits : (Nat.toDigits 10 ran).length ≤ 10 :=
    (Nat.length_toDigits_le_iff (by decide) (by decide)).mpr (by omega)
  have hparity : (parity ran).length ≤ 4 := by
    unfold parity
    split <;> decide
  have hroute := (prints_address addr).short
  have hend : "\x7d\x7d".toList.length = 2 := by decide
  have hsize : appBufferSize = 512 := rfl
  have houtcome := length_outcome ran (parity ran)
  have hdefRoute := length_defRoute (addressText addr)
  have hstart : Holds { appBuffer := appBuffer, bufPtr := 0, remaining := appBufferSize } [] :=
    ⟨List.nil_prefix, rfl, by simp⟩
  obtain ⟨c, hc, holds, -⟩ := print_ok hstart (outcome ran (parity ran))
    (by rw [List.length_nil]; omega)
  rw [List.nil_append] at holds
  obtain ⟨c', hc', holds', -⟩ := print_ok holds (defRoute (addressText addr)) (by omega)
  obtain ⟨c'', hc'', -, hstarts⟩ := print_ok holds' "\x7d\x7d".toList
    (by rw [List.length_append]; omega)
  refine ⟨c'', ?_, Buffer.string_eq hstarts (nul_not_mem_payload ran addr)⟩
  unfold document
  simp only [hc, ipaddrSprintf_string, hc', hc'', bind, Except.bind]

theorem publish_eq {ran : Nat} (hran : ran < 2 ^ 31) (addr : IpAddr) (state : State) :
    (publish ran addr state).2 = some
      { topic := if ran % 2 = 0 then state.pubTopicEven.string else state.pubTopicOdd.string
        payload := payload ran addr } := by
  obtain ⟨c, hc, hstring⟩ := document_ok hran addr state.appBuffer
  unfold parity at hc
  unfold publish
  by_cases hparity : ran % 2 = 0
  · rw [if_pos hparity] at hc
    simp only [if_pos hparity, hc, hstring]
  · rw [if_neg hparity] at hc
    simp only [if_neg hparity, hc, hstring]

/-! ## The topics -/

/-- The topics are in their buffers. -/
structure Configured (state : State) : Prop where
  odd : state.pubTopicOdd.string = publishTopicOdd
  even : state.pubTopicEven.string = publishTopicEven

theorem configured_constructPubTopic (state : State) : Configured (constructPubTopic state).1 := by
  have hprinted (buf : Buffer bufferSize) {topic : List Char} (hfits : topic.length < bufferSize)
      (hnul : nul ∉ topic) : (buf.snprintf 0 bufferSize topic).1.string = topic :=
    Buffer.string_eq (Buffer.snprintf_append (s := []) List.nil_prefix (by simp) hfits) hnul
  exact ⟨hprinted _ (by decide) (by decide), hprinted _ (by decide) (by decide)⟩

theorem constructPubTopic_ok (state : State) : (constructPubTopic state).2 = true := by
  unfold constructPubTopic
  simp only [Buffer.snprintf_length]
  decide

theorem configured_publish {state : State} (h : Configured state) (ran : Nat) (addr : IpAddr) :
    Configured (publish ran addr state).1 := by
  unfold publish
  simp only
  split <;> exact ⟨h.odd, h.even⟩

theorem configured_after {state : State} (h : Configured state) (calls : List (Nat × IpAddr)) :
    Configured (after state calls) := by
  induction calls generalizing state with
  | nil => exact h
  | cons call calls ih => exact ih (configured_publish h call.1 call.2)

/-! ## No JSON -/

def beforeParity (ran : Nat) : List Char :=
  "\x7b".toList ++ "\"Number\":\"".toList ++ Nat.toDigits 10 ran ++ "\",".toList ++
    "\"Outcome #\":".toList

theorem passes_beforeParity (ran : Nat) : Json.Passes (beforeParity ran) := by
  have hquote : '"' ∉ Nat.toDigits 10 ran := fun hmem =>
    absurd (mem_toDigits (by decide) hmem) (by decide)
  have hescape : '\\' ∉ Nat.toDigits 10 ran := fun hmem =>
    absurd (mem_toDigits (by decide) hmem) (by decide)
  have hopen : Json.scanAll .outside ("\x7b".toList ++ "\"Number\":\"".toList) = some .inside := by
    decide
  have hclose : Json.scanAll .inside ("\",".toList ++ "\"Outcome #\":".toList) = some .outside := by
    decide
  have hdigits : Json.scanAll .inside (Nat.toDigits 10 ran) = some .inside :=
    Json.scanAll_plain hquote hescape
  unfold Json.Passes beforeParity
  rw [List.append_assoc, Json.scanAll_append, Json.scanAll_append, hopen, Option.bind_some, hdigits,
    Option.bind_some, hclose]

/-- Neither word is a token: there is a `v` in one of them, and an `o` in the other. -/
theorem payload_not_text (ran : Nat) (addr : IpAddr) : ¬ Json.Text (payload ran addr) := by
  have hsplit (str : List Char) : outcome ran str = beforeParity ran ++ (str ++ "\x7d".toList) := by
    unfold outcome beforeParity
    rw [List.append_assoc _ str]
  have heven : "even".toList = "e".toList ++ 'v' :: "en".toList := by decide
  have hodd : "odd".toList = [] ++ 'o' :: "dd".toList := by decide
  have hword (start rest : List Char) (c : Char) (hstart : Json.Passes start)
      (hc : c ≠ '"' ∧ c ∉ Json.tokenChars) (hparity : parity ran = start ++ c :: rest) :
      ¬ Json.Text (payload ran addr) := by
    unfold payload
    rw [hsplit, hparity]
    have hnot : ¬ Json.Text (beforeParity ran ++ start ++
        c :: (rest ++ "\x7d".toList ++ defRoute (addressText addr) ++ "\x7d\x7d".toList)) :=
      Json.not_text ((passes_beforeParity ran).append hstart) hc.1 hc.2
    simpa only [List.append_assoc, List.cons_append] using hnot
  unfold parity at hword
  split at hword
  · exact hword _ _ _ (by decide) (by decide) heven
  · exact hword _ _ _ (by decide) (by decide) hodd

/-- Whatever was published before, the topic is the right one and the payload is no object. -/
theorem payload_never_object (initial : State) (calls : List (Nat × IpAddr)) {ran : Nat}
    (hran : ran < 2 ^ 31) (addr : IpAddr) :
    ∃ publication,
      (publish ran addr (after (constructPubTopic initial).1 calls)).2 = some publication ∧
      publication.topic = (if ran % 2 = 0 then publishTopicEven else publishTopicOdd) ∧
      ¬ ∃ members, Json.Object members publication.payload := by
  have hconfigured := configured_after (configured_constructPubTopic initial) calls
  refine ⟨_, publish_eq hran addr _, ?_, ?_⟩
  · simp only [hconfigured.odd, hconfigured.even]
  · rintro ⟨members, hobject⟩
    exact payload_not_text ran addr hobject.toText

def empty : State where
  pubTopicOdd := Buffer.zeros bufferSize
  pubTopicEven := Buffer.zeros bufferSize
  seqNrValue := 0
  appBuffer := Buffer.zeros appBufferSize

/-- `fe80::1`. -/
def router : IpAddr where
  u8 := #v[0xfe, 0x80, 0, 0, 0, 0, 0, 0, 0, 0, 0, 0, 0, 0, 0, 1]

theorem payload_never_object_two : ∃ publication,
    (publish 2 router (after (constructPubTopic empty).1 [])).2 = some publication ∧
    publication.topic = publishTopicEven ∧
    ¬ ∃ members, Json.Object members publication.payload :=
  payload_never_object empty [] (by decide) router

def published : List Char :=
  ("\x7b\"Number\":\"2\",\"Outcome #\":even\x7d," ++ "\"Def Route\":\"fe80::1\"\x7d\x7d").toList

theorem even_without_quotes :
    (publish 2 router (constructPubTopic empty).1).2 =
      some { topic := "iot/even/json".toList, payload := published } ∧
    ¬ ∃ members, Json.Object members published := by
  have hpayload : payload 2 router = published := by decide
  rw [← hpayload]
  refine ⟨?_, fun ⟨_, hobject⟩ => payload_not_text 2 router hobject.toText⟩
  rw [publish_eq (by decide), if_pos rfl, (configured_constructPubTopic empty).even]
  rfl

end Nsds.Es4
