import Tomato64.Core.Scan
import Tomato64.Core.Split

/-!
# Reading JSON

A reader for JSON texts over bytes.  Bytes from 128 on are parts of characters
and stand for themselves.  Numbers are kept as they are written.

A writer that puts a text between quotes without escaping it can go unnoticed:
the result may still be well formed.  `parseString_of_prefix` says that it
never reads back as the text that was meant, unless nothing needed an escape.
-/

namespace Tomato64.Json

open List Scan Text

inductive Value
  | null
  | bool (value : Bool)
  | num (text : Bytes)
  | str (text : Bytes)
  | arr (elements : List Value)
  | obj (members : List (Bytes × Value))

/-! ## Strings -/

/-- The characters that stand for themselves between quotes. -/
def isUnescaped (char : Byte) : Bool :=
  32 ≤ char && char ≠ 34 && char ≠ 92

def simpleEscape (letter : Byte) : Option Byte :=
  if letter = 34 then some 34
  else if letter = 92 then some 92
  else if letter = 47 then some 47
  else if letter = 98 then some 8
  else if letter = 102 then some 12
  else if letter = 110 then some 10
  else if letter = 114 then some 13
  else if letter = 116 then some 9
  else none

def utf8 (code : ℕ) : Bytes :=
  if code < 0x80 then [UInt8.ofNat code]
  else if code < 0x800 then
    [UInt8.ofNat (192 + code / 64), UInt8.ofNat (128 + code % 64)]
  else
    [UInt8.ofNat (224 + code / 4096), UInt8.ofNat (128 + code / 64 % 64),
      UInt8.ofNat (128 + code % 64)]

/-- What an escape stands for, and the text behind it. -/
def takeEscape : Bytes → Option (Bytes × Bytes)
  | [] => none
  | letter :: rest =>
    if letter = 117 then
      if (rest.take 4).length = 4 ∧
          ∀ digit ∈ rest.take 4, isDigitOf 16 digit = true then
        some (utf8 (valueOf 16 (rest.take 4)), rest.drop 4)
      else none
    else (simpleEscape letter).map fun byte => ([byte], rest)

variable {rest text : Bytes} {char : Byte}

theorem length_of_takeEscape {emitted : Bytes}
    (hescape : takeEscape text = some (emitted, rest)) :
    rest.length < text.length := by
  cases text with
  | nil => cases hescape
  | cons letter text =>
    rw [takeEscape] at hescape
    split at hescape
    · split at hescape
      · cases hescape
        rw [length_drop, length_cons]
        omega
      · cases hescape
    · rw [Option.map_eq_some_iff] at hescape
      obtain ⟨byte, _, hsame⟩ := hescape
      cases hsame
      simp

/-- The text of a string behind its opening quote, and what follows the closing
one. -/
def parseString (text : Bytes) : Option (Bytes × Bytes) :=
  match text with
  | [] => none
  | char :: rest =>
    if char = 34 then some ([], rest)
    else if char = 92 then
      match _ : takeEscape rest with
      | none => none
      | some (emitted, tail) =>
        (parseString tail).map fun parsed => (emitted ++ parsed.1, parsed.2)
    else if char < 32 then none
    else (parseString rest).map fun parsed => (char :: parsed.1, parsed.2)
termination_by text.length
decreasing_by
  · have hlength := length_of_takeEscape ‹_›
    simp only [length_cons]
    omega
  · simp

theorem parseString_quote (rest : Bytes) :
    parseString (34 :: rest) = some ([], rest) := by
  rw [parseString, if_pos rfl]

theorem parseString_backslash (text : Bytes) :
    parseString (92 :: text) = (takeEscape text).bind fun taken =>
      (parseString taken.2).map fun parsed =>
        (taken.1 ++ parsed.1, parsed.2) := by
  rw [parseString, if_neg (by decide), if_pos rfl]
  split
  · next hnone => rw [hnone, Option.bind_none]
  · next hsome => rw [hsome, Option.bind_some]

theorem parseString_escape {emitted tail : Bytes}
    (hescape : takeEscape text = some (emitted, tail)) :
    parseString (92 :: text) =
      (parseString tail).map fun parsed => (emitted ++ parsed.1, parsed.2) := by
  rw [parseString_backslash, hescape, Option.bind_some]

theorem parseString_unescaped (hchar : isUnescaped char = true) (rest : Bytes) :
    parseString (char :: rest) =
      (parseString rest).map fun parsed => (char :: parsed.1, parsed.2) := by
  simp only [isUnescaped, Bool.and_eq_true, decide_eq_true_eq] at hchar
  rw [parseString, if_neg hchar.1.2, if_neg hchar.2,
    if_neg (UInt8.not_lt.2 hchar.1.1)]

theorem parseString_control (hchar : isUnescaped char = false)
    (hquote : char ≠ 34) (hescape : char ≠ 92) (rest : Bytes) :
    parseString (char :: rest) = none := by
  have hcontrol : char < 32 := by
    simpa [isUnescaped, hquote, hescape] using hchar
  rw [parseString, if_neg hquote, if_neg hescape, if_pos hcontrol]

/-- A text that needs no escapes is read as it stands. -/
theorem parseString_clean (htext : ∀ char ∈ text, isUnescaped char = true)
    (rest : Bytes) : parseString (text ++ 34 :: rest) = some (text, rest) := by
  induction text with
  | nil => exact parseString_quote rest
  | cons char text ih =>
    rw [forall_mem_cons] at htext
    rw [cons_append, parseString_unescaped htext.1, ih htext.2]
    rfl

theorem takeEscape_simple {letter byte : Byte} (hletter : letter ≠ 117)
    (hbyte : simpleEscape letter = some byte) (rest : Bytes) :
    takeEscape (letter :: rest) = some ([byte], rest) := by
  rw [takeEscape, if_neg hletter, hbyte]
  rfl

theorem takeEscape_hex {digits : Bytes} (hlength : digits.length = 4)
    (hdigits : ∀ digit ∈ digits, isDigitOf 16 digit = true) (rest : Bytes) :
    takeEscape (117 :: (digits ++ rest)) =
      some (utf8 (valueOf 16 digits), rest) := by
  have htake : (digits ++ rest).take 4 = digits := take_left' hlength
  have hdrop : (digits ++ rest).drop 4 = rest := drop_left' hlength
  rw [takeEscape, if_pos rfl, htake, hdrop, if_pos ⟨hlength, hdigits⟩]

theorem length_utf8_le (code : ℕ) : (utf8 code).length ≤ 3 := by
  rw [utf8]
  split
  · simp
  · split <;> simp

/-- Four digits before a closing quote stand before it. -/
theorem four_le_of_digits {raw rest : Bytes}
    (hdigits : ∀ digit ∈ (raw ++ 34 :: rest).take 4,
      isDigitOf 16 digit = true) : 4 ≤ raw.length := by
  by_contra hshort
  have hmem : (34 : Byte) ∈ (raw ++ 34 :: rest).take 4 := by
    rw [take_append, mem_append]
    right
    obtain ⟨more, hmore⟩ : ∃ more, 4 - raw.length = more + 1 :=
      ⟨3 - raw.length, by omega⟩
    rw [hmore, take_succ_cons]
    exact mem_cons_self
  exact absurd (hdigits 34 hmem) (by decide)

/-- An escape before a closing quote either lies before it, or is the escape of
that quote. -/
theorem takeEscape_append {raw emitted tail : Bytes}
    (hescape : takeEscape (raw ++ 34 :: rest) = some (emitted, tail)) :
    (∃ used raw', raw = used ++ raw' ∧ tail = raw' ++ 34 :: rest ∧
      emitted.length ≤ used.length ∧ (34 ∈ used → emitted = [34])) ∨
      emitted = [34] := by
  cases raw with
  | nil =>
    right
    rw [nil_append, takeEscape, if_neg (by decide)] at hescape
    cases hescape
    rfl
  | cons letter raw =>
    left
    rw [cons_append, takeEscape] at hescape
    split at hescape
    · split at hescape
      swap
      · cases hescape
      next hletter hdigits =>
      have hlength := four_le_of_digits hdigits.2
      rw [take_append_of_le_length hlength] at hescape hdigits
      rw [drop_append_of_le_length hlength] at hescape
      cases hescape
      refine ⟨letter :: raw.take 4, raw.drop 4, by simp, rfl, ?_, ?_⟩
      · have hbound := length_utf8_le (valueOf 16 (raw.take 4))
        rw [length_cons, hdigits.1]
        omega
      · rw [mem_cons, hletter]
        rintro (hquote | hmem)
        · exact absurd hquote (by decide)
        · exact absurd (hdigits.2 34 hmem) (by decide)
    · rw [Option.map_eq_some_iff] at hescape
      obtain ⟨byte, hbyte, hsame⟩ := hescape
      cases hsame
      refine ⟨[letter], raw, rfl, rfl, by simp, fun hmem => ?_⟩
      rw [mem_singleton] at hmem
      subst hmem
      cases hbyte
      rfl

/-- Text written between quotes as it stands reads back as a text that it is a
part of only if it needed no escapes.  Here `queue` holds the characters that
were written but not read back yet.  An escape is longer than what it stands
for, so once there is one, the queue is never empty again. -/
theorem parseString_of_prefix_queue {queue raw parsed tail : Bytes}
    (hqueue : 34 ∉ queue)
    (hparse : parseString (raw ++ 34 :: rest) = some (parsed, tail))
    (hfront : queue ++ raw <+: parsed) :
    queue = [] ∧ (∀ char ∈ raw, isUnescaped char = true) ∧ parsed = raw ∧
      tail = rest := by
  induction hlength : raw.length using Nat.strong_induction_on
    generalizing queue raw parsed with
  | _ length ih =>
  subst hlength
  cases raw with
  | nil =>
    rw [nil_append, parseString_quote] at hparse
    cases hparse
    simpa using hfront
  | cons char raw =>
    rw [cons_append] at hparse
    by_cases hquote : char = 34
    · subst hquote
      rw [parseString_quote] at hparse
      cases hparse
      simp at hfront
    by_cases hbackslash : char = 92
    · subst hbackslash
      rw [parseString_backslash, Option.bind_eq_some_iff] at hparse
      obtain ⟨⟨emitted, behind⟩, hescape, hparse⟩ := hparse
      rw [Option.map_eq_some_iff] at hparse
      obtain ⟨⟨parsed', tail'⟩, hparse, hsame⟩ := hparse
      cases hsame
      have hnotQuote : emitted ≠ [34] := by
        rintro rfl
        cases queue with
        | nil => exact absurd (cons_prefix_cons.1 hfront).1 (by decide)
        | cons first queue =>
          rw [(cons_prefix_cons.1 hfront).1] at hqueue
          exact hqueue mem_cons_self
      rcases takeEscape_append hescape with
        ⟨used, raw', rfl, rfl, hshort, hused⟩ | hquote
      swap
      · exact absurd hquote hnotQuote
      -- what the escape has used and not emitted joins the queue
      have hlonger : emitted.length < (queue ++ 92 :: used).length := by
        rw [length_append, length_cons]
        omega
      have hrest : (queue ++ 92 :: used).drop emitted.length ++ raw' <+:
          parsed' := by
        have hdrop := hfront.drop emitted.length
        rwa [drop_left, ← cons_append, ← append_assoc,
          drop_append_of_le_length hlonger.le] at hdrop
      have hfree : 34 ∉ (queue ++ 92 :: used).drop emitted.length := by
        intro hmem
        rcases mem_append.1 (mem_of_mem_drop hmem) with
          hmem | hmem
        · exact hqueue hmem
        · rcases mem_cons.1 hmem with hmem | hmem
          · exact absurd hmem (by decide)
          · exact hnotQuote (hused hmem)
      have hless : raw'.length < (92 :: (used ++ raw')).length := by
        rw [length_cons, length_append]
        omega
      obtain ⟨hempty, _⟩ := ih raw'.length hless hfree hparse hrest rfl
      rw [drop_eq_nil_iff] at hempty
      omega
    cases hchar : isUnescaped char with
    | false =>
      rw [parseString_control hchar hquote hbackslash] at hparse
      cases hparse
    | true =>
      rw [parseString_unescaped hchar, Option.map_eq_some_iff] at hparse
      obtain ⟨⟨parsed', tail'⟩, hparse, hsame⟩ := hparse
      cases hsame
      cases queue with
      | nil =>
        obtain ⟨_, hclean, rfl, rfl⟩ := ih raw.length (by simp)
          not_mem_nil hparse (cons_prefix_cons.1 hfront).2 rfl
        exact ⟨rfl, forall_mem_cons.2 ⟨hchar, hclean⟩, rfl, rfl⟩
      | cons first queue =>
        obtain ⟨rfl, hfront⟩ := cons_prefix_cons.1 hfront
        have hfree : 34 ∉ queue ++ [first] := by
          intro hmem
          rcases mem_append.1 hmem with hmem | hmem
          · exact hqueue (mem_cons_of_mem _ hmem)
          · exact hquote (mem_singleton.1 hmem).symm
        obtain ⟨hempty, _⟩ := ih raw.length (by simp) hfree hparse
          (by simpa using hfront) rfl
        simp at hempty

/-! ## Values -/

def isBlank (char : Byte) : Bool :=
  char = 32 || char = 9 || char = 10 || char = 13

def skipSpace (text : Bytes) : Bytes :=
  text.dropWhile isBlank

/-- Behind an item: a comma and further items, or the closing character. -/
def parseMore {α : Type*} (close : Byte)
    (items : Bytes → Option (List α × Bytes)) (first : α) (text : Bytes) :
    Option (List α × Bytes) :=
  match skipSpace text with
  | [] => none
  | char :: rest =>
    if char = 44 then
      (items rest).map fun parsed => (first :: parsed.1, parsed.2)
    else if char = close then some ([first], rest)
    else none

/-- Items with commas between them, up to the closing character. -/
def parseSequence {α : Type*} (close : Byte)
    (item : Bytes → Option (α × Bytes)) : ℕ → Bytes → Option (List α × Bytes)
  | 0, _ => none
  | fuel + 1, text =>
    (item text).bind fun first =>
      parseMore close (parseSequence close item fuel) first.1 first.2

/-- A sequence that may be empty. -/
def parseItems {α : Type*} (close : Byte) (item : Bytes → Option (α × Bytes))
    (fuel : ℕ) (text : Bytes) : Option (List α × Bytes) :=
  match skipSpace text with
  | [] => none
  | char :: rest =>
    if char = close then some ([], rest)
    else parseSequence close item fuel (char :: rest)

/-- A name, a colon and a value. -/
def parseMember (item : Bytes → Option (Value × Bytes)) (text : Bytes) :
    Option ((Bytes × Value) × Bytes) :=
  match skipSpace text with
  | [] => none
  | quote :: rest =>
    if quote = 34 then
      (parseString rest).bind fun name =>
        match skipSpace name.2 with
        | [] => none
        | colon :: rest =>
          if colon = 58 then
            (item rest).map fun parsed => ((name.1, parsed.1), parsed.2)
          else none
    else none

/-- The digits behind a decimal point. -/
def takeFraction : Bytes → Option (Bytes × Bytes)
  | [] => some ([], [])
  | char :: rest =>
    if char = 46 then
      if rest.takeWhile isDigit = [] then none
      else some (46 :: rest.takeWhile isDigit, rest.dropWhile isDigit)
    else some ([], char :: rest)

def takeExponent : Bytes → Option (Bytes × Bytes)
  | [] => some ([], [])
  | char :: rest =>
    if char = 101 ∨ char = 69 then
      let (sign, digits) := takeSign rest
      if digits.takeWhile isDigit = [] then none
      else
        some (char :: (sign ++ digits.takeWhile isDigit),
          digits.dropWhile isDigit)
    else some ([], char :: rest)

/-- A number as it is written. -/
def parseNumber (text : Bytes) : Option (Bytes × Bytes) :=
  let (sign, body) :=
    if text.head? = some 45 then ([45], text.drop 1) else ([], text)
  let digits := body.takeWhile isDigit
  if digits = [] ∨ (1 < digits.length ∧ digits.head? = some 48) then none
  else
    (takeFraction (body.dropWhile isDigit)).bind fun fraction =>
      (takeExponent fraction.2).map fun exponent =>
        (sign ++ digits ++ fraction.1 ++ exponent.1, exponent.2)

def parseAtom (text : Bytes) : Option (Value × Bytes) :=
  if (bytes "true").isPrefixOf text then some (.bool true, text.drop 4)
  else if (bytes "false").isPrefixOf text then
    some (.bool false, text.drop 5)
  else if (bytes "null").isPrefixOf text then some (.null, text.drop 4)
  else (parseNumber text).map fun parsed => (.num parsed.1, parsed.2)

def parseValue : ℕ → Bytes → Option (Value × Bytes)
  | 0, _ => none
  | fuel + 1, text =>
    match skipSpace text with
    | [] => none
    | char :: rest =>
      if char = 34 then
        (parseString rest).map fun parsed => (.str parsed.1, parsed.2)
      else if char = 91 then
        (parseItems 93 (parseValue fuel) fuel rest).map fun parsed =>
          (.arr parsed.1, parsed.2)
      else if char = 123 then
        (parseItems 125 (parseMember (parseValue fuel)) fuel rest).map
          fun parsed => (.obj parsed.1, parsed.2)
      else parseAtom (char :: rest)

def parseDocument (text : Bytes) : Option Value :=
  (parseValue text.length text).bind fun parsed =>
    if skipSpace parsed.2 = [] then some parsed.1 else none

/-! ## Reading an item -/

/-- What may follow an item: a comma or a closing bracket, or the end. -/
def EndsItem (rest : Bytes) : Prop :=
  ∀ char, rest.head? = some char → char = 44 ∨ char = 93 ∨ char = 125

/-- From `text` an item reads `value` exactly under the condition `good`, and
then it reads all of it. -/
def Reads {α : Type*} (item : Bytes → Option (α × Bytes)) (text : Bytes)
    (value : α) (good : Prop) : Prop :=
  ∀ rest tail, EndsItem rest →
    (item (text ++ rest) = some (value, tail) ↔ good ∧ tail = rest)

/-- The text is one item and nothing else. -/
def Whole {α : Type*} (item : Bytes → Option (α × Bytes)) (text : Bytes)
    (value : α) : Prop :=
  item text = some (value, [])

variable {good : Prop}

theorem Reads.whole_iff {α : Type*} {item : Bytes → Option (α × Bytes)}
    {value : α} (hreads : Reads item text value good) :
    Whole item text value ↔ good := by
  have hend := hreads [] [] (by simp [EndsItem])
  rw [append_nil] at hend
  rw [Whole, hend, and_iff_left rfl]

theorem Reads.whole {α : Type*} {item : Bytes → Option (α × Bytes)} {value : α}
    (hreads : Reads item text value good) :
    Reads item text value (Whole item text value) := by
  rwa [Reads, hreads.whole_iff]

theorem skipSpace_cons (hchar : isBlank char = false) (rest : Bytes) :
    skipSpace (char :: rest) = char :: rest := by
  rw [skipSpace, dropWhile_cons, hchar]
  rfl

section Sequence

variable {α : Type*} {close : Byte} {item : Bytes → Option (α × Bytes)}
variable {items : Bytes → Option (List α × Bytes)}

theorem parseMore_comma (first : α) (rest : Bytes) :
    parseMore close items first (44 :: rest) =
      (items rest).map fun parsed => (first :: parsed.1, parsed.2) := by
  rw [parseMore, skipSpace_cons (by decide)]
  exact if_pos rfl

theorem parseMore_close (hclose : close = 93 ∨ close = 125) (first : α)
    (rest : Bytes) :
    parseMore close items first (close :: rest) = some ([first], rest) := by
  rcases hclose with rfl | rfl
  · rw [parseMore, skipSpace_cons (by decide)]
    rfl
  · rw [parseMore, skipSpace_cons (by decide)]
    rfl

theorem exists_cons_of_parseMore {first : α} {text tail : Bytes}
    {values : List α}
    (hmore : parseMore close items first text = some (values, tail)) :
    ∃ others, values = first :: others := by
  rw [parseMore] at hmore
  split at hmore
  · cases hmore
  split at hmore
  · rw [Option.map_eq_some_iff] at hmore
    obtain ⟨parsed, _, hsame⟩ := hmore
    cases hsame
    exact ⟨_, rfl⟩
  split at hmore
  · cases hmore
    exact ⟨_, rfl⟩
  · cases hmore

/-- The first item of a sequence, when what follows it can be told from what is
read. -/
theorem parseSequence_succ {fuel : ℕ} {text rest tail : Bytes} {value : α}
    {others : List α} (hreads : Reads item text value good)
    (hrest : EndsItem rest) :
    parseSequence close item (fuel + 1) (text ++ rest) =
        some (value :: others, tail) ↔
      good ∧ parseMore close (parseSequence close item fuel) value rest =
        some (value :: others, tail) := by
  rw [parseSequence, Option.bind_eq_some_iff]
  constructor
  · rintro ⟨⟨first, behind⟩, hitem, hmore⟩
    obtain ⟨_, hcons⟩ := exists_cons_of_parseMore hmore
    rw [List.cons.injEq] at hcons
    obtain ⟨rfl, _⟩ := hcons
    obtain ⟨hgood, rfl⟩ := (hreads rest behind hrest).1 hitem
    exact ⟨hgood, hmore⟩
  · rintro ⟨hgood, hmore⟩
    exact ⟨(value, rest), (hreads rest rest hrest).2 ⟨hgood, rfl⟩, hmore⟩

theorem endsItem_cons {char : Byte} (hchar : char = 44 ∨ char = 93 ∨ char = 125)
    (rest : Bytes) : EndsItem (char :: rest) := by
  intro other hother
  cases hother
  exact hchar

/-- A sequence is read as the expected values exactly when each of its items
is. -/
theorem parseSequence_iff {good : Bytes → α → Prop}
    (hclose : close = 93 ∨ close = 125) {texts : List Bytes}
    {values : List α} {fuel : ℕ} (htexts : texts ≠ [])
    (hfuel : texts.length ≤ fuel) (hreads : ∀ pair ∈ texts.zip values,
      Reads item pair.1 pair.2 (good pair.1 pair.2)) (rest tail : Bytes) :
    parseSequence close item fuel ([44].intercalate texts ++ close :: rest) =
        some (values, tail) ↔ Forall₂ good texts values ∧ tail = rest := by
  induction texts generalizing values fuel with
  | nil => exact absurd rfl htexts
  | cons text texts ih =>
    obtain ⟨fuel, rfl⟩ : ∃ less, fuel = less + 1 :=
      ⟨fuel - 1, by rw [length_cons] at hfuel; omega⟩
    cases values with
    | nil =>
      constructor
      · intro hparse
        rw [parseSequence, Option.bind_eq_some_iff] at hparse
        obtain ⟨first, _, hmore⟩ := hparse
        obtain ⟨_, hcons⟩ := exists_cons_of_parseMore hmore
        cases hcons
      · rintro ⟨hall, _⟩
        cases hall
    | cons value values =>
      rw [zip_cons_cons, forall_mem_cons] at hreads
      cases texts with
      | nil =>
        rw [intercalate_singleton,
          parseSequence_succ hreads.1 (endsItem_cons (.inr hclose) rest),
          parseMore_close hclose]
        simp [forall₂_cons, forall₂_nil_left_iff, eq_comm, and_assoc]
      | cons next texts =>
        rw [intercalate_cons_cons, append_assoc, append_assoc, singleton_append,
          parseSequence_succ hreads.1 (endsItem_cons (.inl rfl) _),
          parseMore_comma, Option.map_eq_some_iff]
        have hnext := ih (by simp) (by simpa using hfuel) hreads.2
        simp [forall₂_cons, hnext, and_assoc]

def StartsItem (text : Bytes) : Prop :=
  ∃ char more, text = char :: more ∧ isBlank char = false ∧ char ≠ 93 ∧
    char ≠ 125

theorem parseItems_iff {good : Bytes → α → Prop}
    (hclose : close = 93 ∨ close = 125) {texts : List Bytes}
    {values : List α} {fuel : ℕ} (hfuel : texts.length ≤ fuel)
    (hstarts : ∀ text ∈ texts, StartsItem text)
    (hreads : ∀ pair ∈ texts.zip values,
      Reads item pair.1 pair.2 (good pair.1 pair.2)) (rest tail : Bytes) :
    parseItems close item fuel ([44].intercalate texts ++ close :: rest) =
        some (values, tail) ↔ Forall₂ good texts values ∧ tail = rest := by
  by_cases htexts : texts = []
  · subst htexts
    have hblank : isBlank close = false := by
      rcases hclose with rfl | rfl <;> decide
    rw [intercalate_nil, nil_append, parseItems, skipSpace_cons hblank]
    simp only [if_true, Option.some.injEq, Prod.mk.injEq]
    constructor
    · rintro ⟨rfl, rfl⟩
      exact ⟨.nil, rfl⟩
    · rintro ⟨hall, rfl⟩
      cases hall
      exact ⟨rfl, rfl⟩
  · rw [← parseSequence_iff hclose htexts hfuel hreads]
    -- the first item does not look like the end of the sequence
    obtain ⟨text, texts, rfl⟩ := exists_cons_of_ne_nil htexts
    obtain ⟨char, more, rfl, hblank, hbracket, hbrace⟩ :=
      hstarts text mem_cons_self
    obtain ⟨behind, hbehind⟩ : ∃ behind,
        [44].intercalate ((char :: more) :: texts) = char :: behind := by
      cases texts with
      | nil => exact ⟨more, intercalate_singleton⟩
      | cons next texts =>
        rw [intercalate_cons_cons]
        exact ⟨_, rfl⟩
    rw [hbehind, cons_append, parseItems, skipSpace_cons hblank]
    simp only
    rw [if_neg]
    rcases hclose with rfl | rfl
    · exact hbracket
    · exact hbrace

end Sequence

/-! ## Reading numbers -/

/-- An integer or a decimal fraction without leading zeros. -/
structure IsNumberText (text sign digits fraction : Bytes) : Prop where
  text_eq : text = sign ++ (digits ++ fraction)
  sign_eq : sign = [] ∨ sign = [45]
  digits_digit : ∀ char ∈ digits, isDigit char = true
  no_leading_zero : ∃ first others, digits = first :: others ∧
    (first = 48 → others = [])
  fraction_eq : fraction = [] ∨ ∃ decimals, fraction = 46 :: decimals ∧
    decimals ≠ [] ∧ ∀ char ∈ decimals, isDigit char = true

theorem EndsItem.ne (hrest : EndsItem rest) (hchar : rest.head? = some char) :
    isDigit char = false ∧ char ≠ 46 ∧ ¬ (char = 101 ∨ char = 69) := by
  rcases hrest char hchar with rfl | rfl | rfl <;> decide

theorem takeExponent_of_endsItem (hrest : EndsItem rest) :
    takeExponent rest = some ([], rest) := by
  cases rest with
  | nil => rfl
  | cons char rest => exact if_neg (hrest.ne rfl).2.2

theorem takeFraction_of_endsItem (hrest : EndsItem rest) :
    takeFraction rest = some ([], rest) := by
  cases rest with
  | nil => rfl
  | cons char rest => exact if_neg (hrest.ne rfl).2.1

theorem takeFraction_decimals {decimals : Bytes} (hne : decimals ≠ [])
    (hdecimals : ∀ char ∈ decimals, isDigit char = true)
    (hrest : EndsItem rest) :
    takeFraction (46 :: (decimals ++ rest)) = some (46 :: decimals, rest) := by
  obtain ⟨htake, hdrop⟩ := takeWhile_digits hdecimals
    fun char hchar => (hrest.ne hchar).1
  rw [takeFraction, if_pos rfl, htake, hdrop, if_neg hne]

theorem parseNumber_append {sign digits fraction : Bytes}
    (htext : IsNumberText text sign digits fraction) (hrest : EndsItem rest) :
    parseNumber (text ++ rest) = some (text, rest) := by
  obtain ⟨rfl, hsign, hdigits, ⟨first, others, rfl, hzero⟩, hfraction⟩ := htext
  have hfirst : first ≠ 45 := by
    rintro rfl
    exact absurd (hdigits 45 mem_cons_self) (by decide)
  have hstop : ∀ char, (fraction ++ rest).head? = some char →
      isDigit char = false := by
    intro char hchar
    rcases hfraction with rfl | ⟨decimals, rfl, _⟩
    · exact (hrest.ne hchar).1
    · cases hchar
      decide
  have hread : takeFraction (fraction ++ rest) = some (fraction, rest) := by
    rcases hfraction with rfl | ⟨decimals, rfl, hne, hdecimals⟩
    · exact takeFraction_of_endsItem hrest
    · exact takeFraction_decimals hne hdecimals hrest
  obtain ⟨htake, hdrop⟩ := takeWhile_digits hdigits hstop
  have hshort : ¬ (first :: others = [] ∨
      (1 < (first :: others).length ∧ (first :: others).head? = some 48)) := by
    rintro (hnil | ⟨hlength, hhead⟩)
    · cases hnil
    · cases hhead
      rw [hzero rfl] at hlength
      simp at hlength
  rcases hsign with rfl | rfl
  · rw [nil_append, append_assoc, parseNumber, if_neg (by simpa using hfirst)]
    simp only [htake, hdrop, hread, Option.bind_some]
    rw [if_neg hshort, takeExponent_of_endsItem hrest]
    simp
  · rw [append_assoc, append_assoc, singleton_append,
      parseNumber, head?_cons, if_pos rfl]
    simp only [drop_succ_cons, drop_zero, htake, hdrop, hread, Option.bind_some]
    rw [if_neg hshort, takeExponent_of_endsItem hrest]
    simp

/-! ## Reading values -/

section Value

variable {fuel : ℕ}

theorem parseValue_quote (rest : Bytes) :
    parseValue (fuel + 1) (34 :: rest) =
      (parseString rest).map fun parsed => (.str parsed.1, parsed.2) := by
  rw [parseValue, skipSpace_cons (by decide)]
  exact if_pos rfl

variable {text : Bytes}

/-- A string whose text is escaped properly. -/
theorem reads_str {written : Bytes}
    (hparse : ∀ rest, parseString (written ++ 34 :: rest) = some (text, rest)) :
    Reads (parseValue (fuel + 1)) (34 :: (written ++ [34])) (.str text)
      True := by
  intro rest tail _
  rw [cons_append, append_assoc, singleton_append, parseValue_quote, hparse]
  simp [eq_comm]

/-- A string whose text was written as it stands. -/
theorem reads_raw {raw : Bytes} (hfront : raw <+: text) :
    Reads (parseValue (fuel + 1)) (34 :: (raw ++ [34])) (.str text)
      (raw = text ∧ ∀ char ∈ raw, isUnescaped char = true) := by
  intro rest tail _
  rw [cons_append, append_assoc, singleton_append,
    parseValue_quote, Option.map_eq_some_iff]
  constructor
  · rintro ⟨⟨parsed, behind⟩, hparse, hsame⟩
    cases hsame
    obtain ⟨_, hclean, rfl, rfl⟩ := parseString_of_prefix_queue
      not_mem_nil hparse hfront
    exact ⟨⟨rfl, hclean⟩, rfl⟩
  · rintro ⟨⟨rfl, hclean⟩, rfl⟩
    exact ⟨_, parseString_clean hclean tail, rfl⟩

theorem reads_arr {good : Bytes → Value → Prop} {texts : List Bytes}
    {values : List Value} (hfuel : texts.length ≤ fuel)
    (hstarts : ∀ text ∈ texts, StartsItem text)
    (hreads : ∀ pair ∈ texts.zip values,
      Reads (parseValue fuel) pair.1 pair.2 (good pair.1 pair.2)) :
    Reads (parseValue (fuel + 1)) (91 :: ([44].intercalate texts ++ [93]))
      (.arr values) (Forall₂ good texts values) := by
  intro rest tail _
  rw [cons_append, append_assoc, singleton_append, parseValue,
    skipSpace_cons (by decide),
    ← parseItems_iff (.inl rfl) hfuel hstarts hreads rest tail]
  simp

theorem reads_obj {good : Bytes → Bytes × Value → Prop} {texts : List Bytes}
    {members : List (Bytes × Value)} (hfuel : texts.length ≤ fuel)
    (hstarts : ∀ text ∈ texts, StartsItem text)
    (hreads : ∀ pair ∈ texts.zip members,
      Reads (parseMember (parseValue fuel)) pair.1 pair.2
        (good pair.1 pair.2)) :
    Reads (parseValue (fuel + 1)) (123 :: ([44].intercalate texts ++ [125]))
      (.obj members) (Forall₂ good texts members) := by
  intro rest tail _
  rw [cons_append, append_assoc, singleton_append, parseValue,
    skipSpace_cons (by decide),
    ← parseItems_iff (.inr rfl) hfuel hstarts hreads rest tail]
  simp

theorem reads_member {item : Bytes → Option (Value × Bytes)} {name : Bytes}
    {value : Value} (hname : ∀ char ∈ name, isUnescaped char = true)
    (hreads : Reads item text value good) :
    Reads (parseMember item) (34 :: (name ++ 34 :: 58 :: text)) (name, value)
      good := by
  intro rest tail hrest
  rw [cons_append, append_assoc, cons_append, cons_append,
    parseMember, skipSpace_cons (by decide)]
  simp only [if_true]
  rw [parseString_clean hname, Option.bind_some, skipSpace_cons (by decide)]
  rw [← hreads rest tail hrest]
  simp

theorem parseValue_atom {char : Byte} (hblank : isBlank char = false)
    (hquote : char ≠ 34) (hbracket : char ≠ 91) (hbrace : char ≠ 123)
    (rest : Bytes) :
    parseValue (fuel + 1) (char :: rest) = parseAtom (char :: rest) := by
  rw [parseValue, skipSpace_cons hblank]
  simp only [if_neg hquote, if_neg hbracket, if_neg hbrace]

theorem reads_null :
    Reads (parseValue (fuel + 1)) (bytes "null") .null True := by
  intro rest tail _
  have hparse : parseValue (fuel + 1) (bytes "null" ++ rest) =
      some (.null, rest) :=
    parseValue_atom (by decide) (by decide) (by decide) (by decide) _
  rw [hparse]
  simp [eq_comm]

theorem reads_bool (value : Bool) :
    Reads (parseValue (fuel + 1)) (bytes (if value then "true" else "false"))
      (.bool value) True := by
  intro rest tail _
  have hparse : parseValue (fuel + 1)
      (bytes (if value then "true" else "false") ++ rest) =
        some (.bool value, rest) := by
    cases value with
    | true =>
      exact parseValue_atom (by decide) (by decide) (by decide) (by decide) _
    | false =>
      exact parseValue_atom (by decide) (by decide) (by decide) (by decide) _
  rw [hparse]
  simp [eq_comm]

theorem reads_num {sign digits fraction : Bytes}
    (htext : IsNumberText text sign digits fraction) :
    Reads (parseValue (fuel + 1)) text (.num text) True := by
  intro rest tail hrest
  have hnumber := parseNumber_append htext hrest
  obtain ⟨first, others, hcons, hfirst⟩ : ∃ first others,
      text = first :: others ∧ (isDigit first = true ∨ first = 45) := by
    obtain ⟨rfl, hsign, hdigits, ⟨first, others, rfl, _⟩, _⟩ := htext
    rcases hsign with rfl | rfl
    · exact ⟨first, _, rfl, .inl (hdigits first mem_cons_self)⟩
    · exact ⟨45, _, rfl, .inr rfl⟩
  have hne : ∀ char : Byte, isDigit char = false ∧ char ≠ 45 →
      first ≠ char := by
    rintro char ⟨hdigit, hminus⟩ rfl
    rcases hfirst with hfirst | hfirst
    · rw [hfirst] at hdigit
      cases hdigit
    · exact hminus hfirst
  have hblank : isBlank first = false := by
    simp [isBlank, hne 32 (by decide), hne 9 (by decide), hne 10 (by decide),
      hne 13 (by decide)]
  have hfront : ∀ (letter : Byte) (letters : Bytes), letter ≠ first →
      (letter :: letters).isPrefixOf (first :: (others ++ rest)) = false := by
    intro letter letters hletter
    simp [List.isPrefixOf, hletter]
  have htrue := hfront 116 [114, 117, 101] (hne 116 (by decide)).symm
  have hfalse := hfront 102 [97, 108, 115, 101] (hne 102 (by decide)).symm
  have hnull := hfront 110 [117, 108, 108] (hne 110 (by decide)).symm
  rw [hcons, cons_append] at hnumber
  rw [hcons, cons_append, parseValue_atom hblank (hne 34 (by decide))
    (hne 91 (by decide)) (hne 123 (by decide)), parseAtom,
    show bytes "true" = [116, 114, 117, 101] from rfl, htrue,
    show bytes "false" = [102, 97, 108, 115, 101] from rfl, hfalse,
    show bytes "null" = [110, 117, 108, 108] from rfl, hnull, hnumber]
  simp [eq_comm]

theorem parseDocument_iff {value : Value}
    (hreads : Reads (parseValue text.length) text value good) :
    parseDocument text = some value ↔ good := by
  have hend : ∀ tail, parseValue text.length text = some (value, tail) ↔
      good ∧ tail = [] := by
    intro tail
    simpa using hreads [] tail (by simp [EndsItem])
  rw [parseDocument, Option.bind_eq_some_iff]
  constructor
  · rintro ⟨⟨parsed, tail⟩, hparse, hsame⟩
    simp only [Option.ite_none_right_eq_some, Option.some.injEq] at hsame
    obtain ⟨_, rfl⟩ := hsame
    exact ((hend tail).1 hparse).1
  · intro hgood
    exact ⟨(value, []), (hend []).2 ⟨hgood, rfl⟩, rfl⟩

end Value

end Tomato64.Json
