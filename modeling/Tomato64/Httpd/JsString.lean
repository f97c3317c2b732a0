import Tomato64.Httpd.Utf8

/-!
# Texts for script strings

Values of the router reach the pages as string literals of inline scripts.
`js_string` escapes a value byte by byte and `utf8_to_js_string` unit by unit.

Both write literals that denote what they were given.  The conversion from
UTF-8 counts its units in an `int`, so it refuses some texts from 2³¹ units on.
Neither of them escapes `<`, so a value that holds an end tag closes the script.
-/

namespace Tomato64.JsString

open List Scan Script Text Utf8

/-- How a unit is written into a script string. -/
def jsUnit (u : UInt16) : Bytes :=
  if u ≤ 0xff then
    if isPlain u.toUInt8 then [u.toUInt8] else bytes "\\x" ++ hexByte u.toUInt8
  else bytes "\\u" ++ hexWord u

theorem needsEscape_eq (c : Byte) :
    (c = 34 || c = 39 || c = 92 || !isPrint c) = !isPlain c := by
  revert c
  exact forall_byte (by decide +kernel)

theorem writes_jsUtf16Char : Writes jsUtf16Char jsUnit := by
  intro u rem
  rw [jsUtf16Char, jsUnit]
  simp only [needsEscape_eq, fitting]
  split
  · cases hplain : isPlain u.toUInt8 with
    | true =>
      simp only [Bool.not_true, Bool.false_eq_true, if_false, if_true,
        length_singleton]
      by_cases hrem : rem < 2
      · rw [if_pos hrem, if_neg (by omega)]
      · rw [if_neg hrem, if_pos (by omega)]
    | false =>
      simp only [Bool.not_false, if_true, Bool.false_eq_true, if_false]
      by_cases hrem : rem ≤ (bytes "\\x" ++ hexByte u.toUInt8).length
      · rw [if_pos hrem, if_neg (by omega)]
      · rw [if_neg hrem, if_pos (by omega)]
  · by_cases hrem : rem ≤ (bytes "\\u" ++ hexWord u).length
    · rw [if_pos hrem, if_neg (by omega)]
    · rw [if_neg hrem, if_pos (by omega)]

theorem digitValue_hexChar {value : ℕ} (hvalue : value < 16) :
    isDigitOf 16 (hexChar value) = true ∧ digitValue (hexChar value) = value := by
  have hall : ∀ value < 16, isDigitOf 16 (hexChar value) = true ∧
      digitValue (hexChar value) = value := by decide
  exact hall value hvalue

theorem takeHex_hexByte (c : Byte) (rest : Bytes) :
    takeHex 2 (hexByte c ++ rest) = some (UInt16.ofNat c.toNat, rest) := by
  have hc := c.toNat_lt
  obtain ⟨hhigh, hhighValue⟩ := digitValue_hexChar (by omega : c.toNat / 16 < 16)
  obtain ⟨hlow, hlowValue⟩ := digitValue_hexChar (by omega : c.toNat % 16 < 16)
  have hdigits : ∀ digit ∈ hexByte c, isDigitOf 16 digit = true := by
    simp [hexByte, hhigh, hlow]
  have hvalue : valueOf 16 (hexByte c) = c.toNat := by
    simp only [valueOf, hexByte, foldl_cons, foldl_nil, hhighValue, hlowValue]
    omega
  have hread := takeHex_append hdigits rest
  rwa [hvalue] at hread

theorem takeHex_hexWord (u : UInt16) (rest : Bytes) :
    takeHex 4 (hexWord u ++ rest) = some (u, rest) := by
  have hu := u.toNat_lt
  obtain ⟨hfirst, hfirstValue⟩ :=
    digitValue_hexChar (by omega : u.toNat / 4096 < 16)
  obtain ⟨hsecond, hsecondValue⟩ :=
    digitValue_hexChar (by omega : u.toNat / 256 % 16 < 16)
  obtain ⟨hthird, hthirdValue⟩ :=
    digitValue_hexChar (by omega : u.toNat / 16 % 16 < 16)
  obtain ⟨hfourth, hfourthValue⟩ :=
    digitValue_hexChar (by omega : u.toNat % 16 < 16)
  have hdigits : ∀ digit ∈ hexWord u, isDigitOf 16 digit = true := by
    simp [hexWord, hfirst, hsecond, hthird, hfourth]
  have hvalue : valueOf 16 (hexWord u) = u.toNat := by
    simp only [valueOf, hexWord, foldl_cons, foldl_nil, hfirstValue,
      hsecondValue, hthirdValue, hfourthValue]
    omega
  have hread := takeHex_append hdigits rest
  rwa [hvalue, UInt16.ofNat_toNat] at hread

/-- A written unit is read back. -/
theorem readLiteral_jsUnit (u : UInt16) (rest : Bytes) :
    readLiteral (jsUnit u ++ rest) =
      (readLiteral rest).map fun parsed => (u :: parsed.1, parsed.2) := by
  have hx : bytes "\\x" = [92, 120] := by decide
  have hu : bytes "\\u" = [92, 117] := by decide
  rw [jsUnit]
  split
  · next hsmall =>
    have hbyte : u.toUInt8.toNat = u.toNat := by
      have hbound : u.toNat ≤ 255 := hsmall
      rw [UInt16.toNat_toUInt8]
      omega
    split
    · next hplain =>
      have hsame : u.toUInt8.toUInt16 = u :=
        UInt16.toNat_inj.1 (by rw [UInt8.toNat_toUInt16, hbyte])
      rw [singleton_append, readLiteral_plain hplain, hsame]
    · have hescape : takeEscape (120 :: (hexByte u.toUInt8 ++ rest)) =
          some (u, rest) := by
        rw [takeEscape, if_pos rfl, takeHex_hexByte, hbyte, UInt16.ofNat_toNat]
      rw [hx]
      exact readLiteral_escape hescape
  · have hescape : takeEscape (117 :: (hexWord u ++ rest)) = some (u, rest) := by
      rw [takeEscape, if_neg (by decide), if_pos rfl, takeHex_hexWord]
    rw [hu]
    exact readLiteral_escape hescape

variable (units : List UInt16)

theorem readLiteral_units (rest : Bytes) :
    readLiteral (units.flatMap jsUnit ++ 39 :: rest) = some (units, rest) := by
  induction units with
  | nil => exact readLiteral_quote rest
  | cons unit units ih =>
    rw [flatMap_cons, append_assoc, readLiteral_jsUnit, ih]
    rfl

/-- The units of the source are those of UTF-16. -/
theorem unitsOf_eq (char : Char) : unitsOf char.toNat = utf16 char := by
  have hand : (char.toNat - 0x10000) &&& 0x3ff =
      (char.toNat - 0x10000) % 0x400 :=
    Nat.and_two_pow_sub_one_eq_mod _ 10
  rw [unitsOf, utf16, hand, Nat.shiftRight_eq_div_pow, Nat.add_comm _ 0xd800,
    Nat.add_comm _ 0xdc00]

def utf16Text (chars : List Char) : List UInt16 :=
  chars.flatMap utf16

theorem unitsOfText_eq (chars : List Char) :
    unitsOfText chars = utf16Text chars := by
  simp only [unitsOfText, utf16Text, unitsOf_eq]

/-- The number of bytes that a unit takes. -/
def unitWidth (u : UInt16) : ℕ :=
  if u ≤ 0xff then if isPlain u.toUInt8 then 1 else 4 else 6

theorem length_jsUnit (u : UInt16) : (jsUnit u).length = unitWidth u := by
  rw [jsUnit, unitWidth]
  split
  · split <;> rfl
  · rfl

/-- The number of units, counted in 32 bits. -/
def counted : ℕ :=
  units.length % 2 ^ 32

/-- The count is a positive `int`, and the units fit a buffer of its size. -/
def FitsEstimate : Prop :=
  0 < counted units ∧ counted units < 2 ^ 31 ∧
    (units.map unitWidth).sum ≤ 6 * (counted units + 1)

instance (units : List UInt16) : Decidable (FitsEstimate units) :=
  inferInstanceAs (Decidable (_ ∧ _))

theorem fitsEstimate_iff : FitsEstimate units ↔ Estimated 6 jsUnit units := by
  rw [Estimated, length_flatMap]
  simp only [length_jsUnit]
  rfl

theorem length_jsUnit_le (u : UInt16) : (jsUnit u).length ≤ 6 := by
  rw [length_jsUnit, unitWidth]
  split
  · split <;> decide
  · decide

/-- The text comes out exactly when it fits the estimate. -/
theorem utf8ToJsString_encode {chars : List Char}
    (hchars : ∀ char ∈ chars, char.toNat ≠ 0) :
    utf8ToJsString (encode chars) =
      if FitsEstimate (utf16Text chars) then
        some ((utf16Text chars).flatMap jsUnit)
      else none := by
  rw [utf8ToJsString, utf8ToString_encode writes_jsUtf16Char (by decide)
    (by decide) hchars, unitsOfText_eq]
  exact if_congr (fitsEstimate_iff _).symm rfl rfl

/-- The NUL is the only character whose encoding holds one. -/
theorem toNat_ne_zero_of_nulFree {chars : List Char}
    (hchars : NulFree (encode chars)) : ∀ char ∈ chars, char.toNat ≠ 0 := by
  intro char hchar hzero
  refine hchars (mem_flatMap.2 ⟨char, hchar, ?_⟩)
  have hbyte : char.toNat = (0 : Byte).toNat := hzero
  rw [encode_one hbyte (by decide)]
  exact mem_singleton_self 0

variable (s : Bytes)

/-- A string that is UTF-8 comes out as a literal of its UTF-16 form, and any
other string is refused. -/
def Lossless : Prop :=
  (∀ chars, chars ≠ [] → s = encode chars →
    ∃ text, utf8ToJsString s = some text ∧
      ∀ rest, readLiteral (text ++ 39 :: rest) = some (utf16Text chars, rest)) ∧
  (¬ ValidUtf8 s → utf8ToJsString s = none)

/-- The conversion loses nothing exactly when the estimate of the size is right
in the arithmetic of an `int`, as it is below 2³¹ units. -/
theorem lossless_iff {s : Bytes} (hs : NulFree s) :
    Lossless s ↔ ∀ chars, chars ≠ [] → s = encode chars →
      FitsEstimate (utf16Text chars) := by
  have hconvert : ∀ chars, s = encode chars → utf8ToJsString s =
      if FitsEstimate (utf16Text chars) then
        some ((utf16Text chars).flatMap jsUnit)
      else none := by
    rintro chars rfl
    exact utf8ToJsString_encode (toNat_ne_zero_of_nulFree hs)
  constructor
  · rintro ⟨hvalid, _⟩ chars hne hencode
    obtain ⟨text, htext, _⟩ := hvalid chars hne hencode
    by_contra hnot
    rw [hconvert chars hencode, if_neg hnot] at htext
    cases htext
  · intro hfits
    refine ⟨fun chars hne hencode => ?_, utf8ToString_of_not_validUtf8 hs⟩
    rw [hconvert chars hencode, if_pos (hfits chars hne hencode)]
    exact ⟨_, rfl, readLiteral_units (utf16Text chars)⟩

/-- Two bytes that are one character. -/
theorem lossless_eacute :
    Lossless [0xc3, 0xa9] := by
  refine (lossless_iff (by decide)).2 fun chars hne hencode => ?_
  have hcount := countUnits_encode_text chars
  rw [← hencode, unitsOfText_eq] at hcount
  have hone : countUnits [0xc3, 0xa9] = some 1 := by decide +kernel
  rw [hone, Option.some.injEq] at hcount
  have hunits : utf16Text chars ≠ [] := by
    intro hnil
    rw [hnil] at hcount
    cases hcount
  exact (fitsEstimate_iff _).2
    (estimated_of_length_lt length_jsUnit_le hunits (by omega))

theorem encode_replicate (count : ℕ) :
    encode (replicate count 'a') = replicate count 97 := by
  induction count with
  | zero => rfl
  | succ count ih =>
    rw [replicate_succ, replicate_succ, ← ih]
    rfl

theorem length_utf16Text_replicate (count : ℕ) :
    (utf16Text (replicate count 'a')).length = count := by
  induction count with
  | zero => rfl
  | succ count ih =>
    rw [replicate_succ, utf16Text, flatMap_cons, length_append,
      ← utf16Text, ih, Nat.add_comm]
    rfl

theorem not_lossless_replicate {count : ℕ} (hcount : count = 2 ^ 31) :
    ¬ Lossless (replicate count 97) := by
  intro hlossless
  have hchars : ∀ char ∈ replicate count 'a', char.toNat ≠ 0 := by
    intro char hchar
    rw [eq_of_mem_replicate hchar]
    decide
  have hne : replicate count 'a' ≠ [] := by
    rw [hcount, Ne, replicate_eq_nil_iff]
    decide
  have hnot : ¬ FitsEstimate (utf16Text (replicate count 'a')) := by
    rw [FitsEstimate, counted, length_utf16Text_replicate, hcount]
    omega
  obtain ⟨text, htext, _⟩ := hlossless.1 _ hne (encode_replicate count).symm
  rw [← encode_replicate, utf8ToJsString_encode hchars, if_neg hnot] at htext
  cases htext

/-- With 2³¹ letters the count is a negative `int`. -/
theorem longText_refused : ¬ Lossless (replicate (2 ^ 31) 97) :=
  not_lossless_replicate rfl

/-! ## Inline scripts -/

/-- How `js_string` writes a byte. -/
def jsByte (c : Byte) : Bytes :=
  if c = 34 || c = 39 || c = 92 || !isPrint c then bytes "\\x" ++ hexByte c
  else [c]

def jsString : Option Bytes :=
  if (sizeMax - 1) / 4 < s.length then none else some (s.flatMap jsByte)

def byteUnits : List UInt16 :=
  s.map UInt8.toUInt16

/-- A text that can stand between single quotes in an inline script: it denotes
the units, and ends neither the string, nor the line, nor the script. -/
structure SafeText (text : Bytes) (units : List UInt16) : Prop where
  denotes : ∀ rest, readLiteral (text ++ 39 :: rest) = some (units, rest)
  one_line : 10 ∉ text ∧ 13 ∉ text
  open_script : occurs endTag (39 :: (text ++ [39])) = false

def ScriptSafe : Prop :=
  (∃ text, jsString s = some text ∧ SafeText text (byteUnits s)) ∧
  ∀ chars, s = encode chars → ∀ text, utf8ToJsString s = some text →
    SafeText text (utf16Text chars)

theorem jsByte_eq (c : Byte) : jsByte c = jsUnit c.toUInt16 := by
  have hsmall : c.toUInt16 ≤ 0xff := by
    rw [UInt16.le_iff_toNat_le, UInt8.toNat_toUInt16]
    exact Nat.le_of_lt_succ c.toNat_lt
  have hback : c.toUInt16.toUInt8 = c := by simp
  rw [jsByte, jsUnit, needsEscape_eq, if_pos hsmall, hback]
  cases isPlain c <;> rfl

theorem flatMap_jsByte : s.flatMap jsByte = (byteUnits s).flatMap jsUnit := by
  rw [byteUnits, flatMap_map]
  exact congrArg (s.flatMap ·) (funext jsByte_eq)

/-- The units that are written as they stand. -/
def isPlainUnit (u : UInt16) : Bool :=
  u ≤ 0xff && isPlain u.toUInt8

variable {u : UInt16}

theorem jsUnit_of_plain (hplain : isPlainUnit u = true) :
    jsUnit u = [u.toUInt8] := by
  rw [isPlainUnit, Bool.and_eq_true, decide_eq_true_eq] at hplain
  rw [jsUnit, if_pos hplain.1, if_pos hplain.2]

theorem isDigitOf_of_mem_hexByte {c digit : Byte} (hdigit : digit ∈ hexByte c) :
    isDigitOf 16 digit = true := by
  have hc := c.toNat_lt
  rw [hexByte, mem_pair] at hdigit
  rcases hdigit with rfl | rfl
  · exact (digitValue_hexChar (by omega)).1
  · exact (digitValue_hexChar (by omega)).1

theorem isDigitOf_of_mem_hexWord {digit : Byte}
    (hdigit : digit ∈ hexWord u) : isDigitOf 16 digit = true := by
  have hu := u.toNat_lt
  simp only [hexWord, mem_cons, not_mem_nil, or_false] at hdigit
  rcases hdigit with rfl | rfl | rfl | rfl
  · exact (digitValue_hexChar (by omega)).1
  · exact (digitValue_hexChar (by omega)).1
  · exact (digitValue_hexChar (by omega)).1
  · exact (digitValue_hexChar (by omega)).1

/-- Any other unit is an escape of a letter and digits. -/
theorem jsUnit_of_not_plain (hplain : isPlainUnit u = false) :
    ∃ tail, jsUnit u = 92 :: tail ∧ ∀ char ∈ tail,
      char = 120 ∨ char = 117 ∨ isDigitOf 16 char = true := by
  have hx : bytes "\\x" = [92, 120] := by decide
  have hu : bytes "\\u" = [92, 117] := by decide
  by_cases hsmall : u ≤ 0xff
  · have hbyte : isPlain u.toUInt8 ≠ true := by
      simpa [isPlainUnit, hsmall] using hplain
    refine ⟨120 :: hexByte u.toUInt8, ?_, ?_⟩
    · rw [jsUnit, if_pos hsmall, if_neg hbyte, hx]
      rfl
    · rw [forall_mem_cons]
      exact ⟨.inl rfl, fun char hchar => .inr (.inr
        (isDigitOf_of_mem_hexByte hchar))⟩
  · refine ⟨117 :: hexWord u, ?_, ?_⟩
    · rw [jsUnit, if_neg hsmall, hu]
      rfl
    · rw [forall_mem_cons]
      exact ⟨.inr (.inl rfl), fun char hchar => .inr (.inr
        (isDigitOf_of_mem_hexWord hchar))⟩

/-- A character that no escape holds. -/
theorem not_mem_jsUnit {char : Byte} (hplain : isPlainUnit u = false)
    (hchar : char ≠ 92 ∧ char ≠ 120 ∧ char ≠ 117 ∧
      isDigitOf 16 char = false) : char ∉ jsUnit u := by
  obtain ⟨tail, hunit, htail⟩ := jsUnit_of_not_plain hplain
  rw [hunit, mem_cons, not_or]
  refine ⟨hchar.1, fun hmem => ?_⟩
  rcases htail char hmem with htail | htail | htail
  · exact hchar.2.1 htail
  · exact hchar.2.2.1 htail
  · rw [hchar.2.2.2] at htail
    cases htail

theorem not_mem_flatMap_jsUnit {char : Byte} (hplain : isPlain char = false)
    (hchar : char ≠ 92 ∧ char ≠ 120 ∧ char ≠ 117 ∧
      isDigitOf 16 char = false) (units : List UInt16) :
    char ∉ units.flatMap jsUnit := by
  intro hmem
  obtain ⟨unit, _, hmem⟩ := mem_flatMap.1 hmem
  cases hunit : isPlainUnit unit with
  | true =>
    rw [jsUnit_of_plain hunit, mem_singleton] at hmem
    rw [isPlainUnit, Bool.and_eq_true, ← hmem, hplain] at hunit
    exact absurd hunit.2 (by decide)
  | false => exact not_mem_jsUnit hunit hchar hmem

/-- Units that are all escaped. -/
theorem shown_of_not_plain {units : List UInt16} {source : Bytes}
    (hne : units ≠ []) (hunits : ∀ unit ∈ units, isPlainUnit unit = false)
    (hsource : source ≠ []) (hbytes : ∀ char ∈ source, isPlain char = false) :
    Shown (units.flatMap jsUnit) source := by
  obtain ⟨unit, units, rfl⟩ := exists_cons_of_ne_nil hne
  have hbracket : 60 ∉ (unit :: units).flatMap jsUnit := by
    intro hmem
    obtain ⟨other, hother, hmem⟩ := mem_flatMap.1 hmem
    exact not_mem_jsUnit (hunits other hother) (by decide) hmem
  obtain ⟨tail, hunit, _⟩ := jsUnit_of_not_plain (hunits unit (by simp))
  rw [flatMap_cons, hunit, cons_append] at hbracket ⊢
  exact .escaped _ rfl (fun hmem => hbracket (mem_cons_of_mem _ hmem))
    hsource hbytes

/-- A unit that stands for an ASCII character. -/
theorem shown_ascii {c : Byte} (hu : u = c.toUInt16) :
    Shown ([u].flatMap jsUnit) [c] := by
  have hsmall : u ≤ 0xff := by
    rw [hu, UInt16.le_iff_toNat_le, UInt8.toNat_toUInt16]
    exact Nat.le_of_lt_succ c.toNat_lt
  have hback : u.toUInt8 = c := by simp [hu]
  have hplain : isPlainUnit u = isPlain c := by simp [isPlainUnit, hsmall, hback]
  cases hc : isPlain c with
  | true =>
    rw [flatMap_singleton, jsUnit_of_plain (hplain.trans hc), hback]
    exact .plain c hc rfl rfl
  | false =>
    exact shown_of_not_plain (by simp) (by simpa using hplain.trans hc)
      (by simp) (by simpa using hc)

theorem not_plain_of_le {c : Byte} (hc : 128 ≤ c.toNat) : isPlain c = false := by
  have hlarge : ¬ c < 127 := by
    rw [UInt8.lt_iff_toNat_lt, show (127 : UInt8).toNat = 127 from rfl]
    omega
  simp [isPlain, hlarge]

/-- All bytes of a longer sequence are from the upper half. -/
theorem not_plain_of_mem_utf8EncodeChar {char : Char} (hchar : 128 ≤ char.toNat) :
    ∀ byte ∈ String.utf8EncodeChar char, isPlain byte = false := by
  suffices hlarge : ∀ byte ∈ String.utf8EncodeChar char, 128 ≤ byte.toNat from
    fun byte hbyte => not_plain_of_le (hlarge byte hbyte)
  have hencoded := encoded char
  generalize String.utf8EncodeChar char = s at *
  generalize char.toNat = v at *
  cases hencoded with
  | one hcode ha => omega
  | _ =>
    simp only [mem_cons, not_mem_nil, or_false, forall_eq_or_imp, forall_eq]
    omega

theorem not_plainUnit_of_le {code : ℕ} (hlow : 128 ≤ code)
    (hhigh : code < 0x10000) : isPlainUnit (UInt16.ofNat code) = false := by
  have hcode : (UInt16.ofNat code).toNat = code := by
    rw [UInt16.toNat_ofNat', Nat.mod_eq_of_lt hhigh]
  by_cases hsmall : UInt16.ofNat code ≤ 0xff
  · have hbound : code ≤ 255 := by
      rw [UInt16.le_iff_toNat_le, hcode] at hsmall
      exact hsmall
    have hbyte : 128 ≤ (UInt16.ofNat code).toUInt8.toNat := by
      rw [UInt16.toNat_toUInt8, hcode]
      omega
    rw [isPlainUnit, not_plain_of_le hbyte, Bool.and_false]
  · simp [isPlainUnit, hsmall]

/-- A character is shown as it stands or as escapes. -/
theorem shown_char (char : Char) :
    Shown ((utf16 char).flatMap jsUnit) (String.utf8EncodeChar char) := by
  have hvalid := toNat_cases char
  by_cases hascii : char.toNat < 128
  · have hbyte : char.toNat = (UInt8.ofNat char.toNat).toNat :=
      (toNat_ofNat (by omega)).symm
    rw [utf16, if_pos (by omega), encode_one hbyte (by omega)]
    refine shown_ascii (UInt16.toNat_inj.1 ?_)
    rw [UInt8.toNat_toUInt16, ← hbyte, UInt16.toNat_ofNat', Nat.mod_eq_of_lt]
    omega
  refine shown_of_not_plain ?_ ?_ String.utf8EncodeChar_ne_nil
    (not_plain_of_mem_utf8EncodeChar (by omega))
  · rw [utf16]
    split <;> simp
  rw [utf16]
  split
  · simpa using not_plainUnit_of_le (by omega) (by omega)
  · rw [forall_mem_cons, forall_mem_singleton]
    exact ⟨not_plainUnit_of_le (by omega) (by omega),
      not_plainUnit_of_le (by omega) (by omega)⟩

/-- What both functions write is safe but for end tags of the script. -/
theorem safeText_iff {α : Type*} {units : α → List UInt16} {source : α → Bytes}
    (hshown : ∀ item, Shown ((units item).flatMap jsUnit) (source item))
    (items : List α) :
    SafeText ((items.flatMap units).flatMap jsUnit) (items.flatMap units) ↔
      occurs plainEndTag (items.flatMap source) = false := by
  have hscript := occurs_endTag_shown hshown items
  rw [← flatMap_assoc] at hscript
  constructor
  · intro hsafe
    rw [← hscript, hsafe.open_script]
  · intro hfree
    exact ⟨readLiteral_units _,
      ⟨not_mem_flatMap_jsUnit (by decide) (by decide) _,
        not_mem_flatMap_jsUnit (by decide) (by decide) _⟩, hscript.trans hfree⟩

theorem safeText_jsString_iff :
    SafeText (s.flatMap jsByte) (byteUnits s) ↔
      occurs plainEndTag s = false := by
  have hshown : ∀ c : Byte, Shown ([c.toUInt16].flatMap jsUnit) [c] :=
    fun c => shown_ascii rfl
  have hiff := safeText_iff hshown s
  have hunits : s.flatMap (fun c => [c.toUInt16]) = byteUnits s :=
    flatMap_pure_eq_map _ s
  have hsource : s.flatMap (fun c => [c]) = s := flatMap_singleton' s
  rwa [hunits, hsource, ← flatMap_jsByte] at hiff

/-- Values are safe in a script exactly when they hold no end tag of one. -/
theorem scriptSafe_iff {s : Bytes} (hs : NulFree s) :
    ScriptSafe s ↔ s.length ≤ (sizeMax - 1) / 4 ∧
      occurs plainEndTag s = false := by
  constructor
  · rintro ⟨⟨text, htext, hsafe⟩, _⟩
    rw [jsString] at htext
    split at htext
    · cases htext
    · next hshort =>
      rw [← Option.some.inj htext, safeText_jsString_iff] at hsafe
      exact ⟨by omega, hsafe⟩
  · rintro ⟨hshort, hfree⟩
    refine ⟨⟨s.flatMap jsByte, if_neg (by omega),
      (safeText_jsString_iff s).2 hfree⟩, ?_⟩
    rintro chars rfl text htext
    rw [utf8ToJsString_encode (toNat_ne_zero_of_nulFree hs)] at htext
    split at htext
    · rw [← Option.some.inj htext]
      exact (safeText_iff shown_char chars).2 hfree
    · cases htext

theorem scriptSafe_hello : ScriptSafe (bytes "<b>it's</b>") :=
  (scriptSafe_iff (by decide)).2 (by decide)

/-- The end tag of a script is written as it stands. -/
theorem endTag_not_scriptSafe : ¬ ScriptSafe (bytes "</script>") := by
  rintro ⟨⟨text, htext, hsafe⟩, _⟩
  have hout : jsString (bytes "</script>") = some (bytes "</script>") := by
    decide
  have hcloses : occurs endTag (39 :: (bytes "</script>" ++ [39])) = true := by
    decide
  rw [hout, Option.some.injEq] at htext
  rw [← htext] at hsafe
  exact absurd (hsafe.open_script.symm.trans hcloses) (by decide)

end Tomato64.JsString
