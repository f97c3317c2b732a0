import Tomato64.Core.Script

/-!
# From UTF-8 to script and page text

`utf8_to_string` decodes a string twice.  A first pass counts the 16 bit units
and from their number follows the size of the buffer.  A second pass decodes
again, with checks, and writes every unit into that buffer.

A string is its bytes without the NUL that ends it, and a pointer into it is
what is left from there on.
-/

namespace Tomato64.Utf8

open List Text

/-- The byte at an offset, which is the NUL behind the last one. -/
def byteAt (s : Bytes) (offset : ℕ) : ℕ :=
  (s.getD offset 0).toNat

/-- The loop of `utf8_to_utf16_size`, which looks at the first byte of each
character only and never steps over the end. -/
def countUnits (s : Bytes) : Option ℕ :=
  match s with
  | [] => some 0
  | byte :: s =>
    if byte < 0xc0 then (countUnits s).map (· + 1)
    else if 0xf5 ≤ byte then none
    else if s = [] then some 1
    else if s.drop 1 = [] then some 1
    else
      let s := if 0xe0 ≤ byte then s.drop 2 else s.drop 1
      if s = [] then some 1
      else if 0xf0 ≤ byte then (countUnits (s.drop 1)).map (· + 2)
      else (countUnits s).map (· + 1)
termination_by s.length
decreasing_by
  · simp
  · simp only [length_drop, length_cons]
    split <;> simp <;> omega
  · simp only [length_cons]
    split <;> simp only [length_drop] <;> omega

/-- The count as an `int`. -/
def utf8ToUtf16Size (s : Bytes) : ℤ :=
  match countUnits s with
  | none => -1
  | some count => (BitVec.ofNat 32 count).toInt

/-- The character at the start of a string and the number of bytes it takes,
which is zero at the end. -/
def utf8ToUnicode (s : Bytes) : Option (ℕ × ℕ) :=
  let byte := byteAt s 0
  if byte = 0 then some (0, 0)
  else if byte < 0x80 then some (byte, 1)
  else if byte < 0xc2 then none
  else if byte < 0xe0 then
    if byteAt s 1 &&& 0xc0 = 0x80 then
      some ((byte &&& 0x1f) <<< 6 ||| (byteAt s 1 &&& 0x3f), 2)
    else none
  else if byte < 0xf0 then
    if byteAt s 1 &&& 0xc0 = 0x80 ∧ byteAt s 2 &&& 0xc0 = 0x80 then
      let wc := (byte &&& 0x0f) <<< 12 ||| (byteAt s 1 &&& 0x3f) <<< 6 |||
        (byteAt s 2 &&& 0x3f)
      if (0x800 ≤ wc ∧ wc ≤ 0xd7ff) ∨ (0xe000 ≤ wc ∧ wc ≤ 0xffff) then
        some (wc, 3)
      else none
    else none
  else if byte < 0xf5 then
    if byteAt s 1 &&& 0xc0 = 0x80 ∧ byteAt s 2 &&& 0xc0 = 0x80 ∧
        byteAt s 3 &&& 0xc0 = 0x80 then
      let wc := (byte &&& 0x07) <<< 18 ||| (byteAt s 1 &&& 0x3f) <<< 12 |||
        (byteAt s 2 &&& 0x3f) <<< 6 ||| (byteAt s 3 &&& 0x3f)
      if wc ≤ 0x10ffff ∧ 0x10000 ≤ wc then some (wc, 4) else none
    else none
  else none

/-! ## Writing units -/

def isPrint (char : Byte) : Bool :=
  32 ≤ char && char ≤ 126

/-- Text that fits into the rest of the buffer, with room for a NUL. -/
def fitting (rem : ℕ) (text : Bytes) : Option Bytes :=
  if rem ≤ text.length then none else some text

/-- `%04x`. -/
def hexWord (u : UInt16) : Bytes :=
  [hexChar (u.toNat / 4096), hexChar (u.toNat / 256 % 16),
    hexChar (u.toNat / 16 % 16), hexChar (u.toNat % 16)]

/-- `%02x`. -/
def hexByte (c : Byte) : Bytes :=
  [hexChar (c.toNat / 16), hexChar (c.toNat % 16)]

def jsUtf16Char (u : UInt16) (rem : ℕ) : Option Bytes :=
  let c := u.toUInt8
  if u ≤ 0xff then
    if c = 34 || c = 39 || c = 92 || !isPrint c then
      fitting rem (bytes "\\x" ++ hexByte c)
    else if rem < 2 then none
    else some [c]
  else fitting rem (bytes "\\u" ++ hexWord u)

/-- A character outside the first plane takes two units. -/
def unitsOf (wc : ℕ) : List UInt16 :=
  if wc < 0x10000 then [UInt16.ofNat wc]
  else
    [UInt16.ofNat (((wc - 0x10000) >>> 10) + 0xd800),
      UInt16.ofNat (((wc - 0x10000) &&& 0x3ff) + 0xdc00)]

section Loop

variable (conv : UInt16 → ℕ → Option Bytes) (outSize : ℕ)

/-- One call of the conversion, at the end of what was written. -/
def putUnit (outs : Bytes) (u : UInt16) : Option Bytes :=
  (conv u (outSize - outs.length)).map fun text => outs ++ text

theorem ne_nil_of_decode {m wc : ℕ} {t : Bytes}
    (hdecode : utf8ToUnicode t = some (wc, m)) (hm : m ≠ 0) : t ≠ [] := by
  rintro rfl
  cases hdecode
  exact hm rfl

/-- The second pass. -/
def convert (outs t : Bytes) : Option Bytes :=
  match _ : utf8ToUnicode t with
  | none => none
  | some (wc, m) =>
    if _ : m = 0 then some outs
    else
      ((unitsOf wc).foldlM (putUnit conv outSize) outs).bind fun outs =>
        convert outs (t.drop m)
termination_by t.length
decreasing_by
  have hpos := List.length_pos_iff.2 (ne_nil_of_decode ‹_› ‹_›)
  rw [length_drop]
  omega

end Loop

def sizeMax : ℕ := 2 ^ 64 - 1

def utf8ToString (ins : Bytes) (csize : ℕ)
    (conv : UInt16 → ℕ → Option Bytes) : Option Bytes :=
  let shorts := utf8ToUtf16Size ins
  if shorts ≤ 0 ∨ csize = 0 then none
  else if (sizeMax - 1) / csize - 1 < shorts.toNat then none
  else convert conv ((shorts.toNat + 1) * csize + 1) [] ins

def utf8ToJsString (ins : Bytes) : Option Bytes :=
  utf8ToString ins 6 jsUtf16Char

/-! ## Decoding -/

variable (chars : List Char)

def encode : Bytes :=
  chars.flatMap String.utf8EncodeChar

def ValidUtf8 (s : Bytes) : Prop :=
  ∃ chars, s = encode chars

theorem and_c0_iff {byte : ℕ} (hbyte : byte < 256) :
    byte &&& 0xc0 = 0x80 ↔ 128 ≤ byte ∧ byte < 192 := by
  have hall : ∀ byte < 256, (byte &&& 0xc0 = 0x80 ↔ 128 ≤ byte ∧ byte < 192) := by
    decide +kernel
  exact hall byte hbyte

theorem and_3f (byte : ℕ) : byte &&& 0x3f = byte % 64 :=
  Nat.and_two_pow_sub_one_eq_mod byte 6

/-- Two groups of bits side by side. -/
theorem shiftLeft_or {high low bits : ℕ} (hlow : low < 2 ^ bits) :
    high <<< bits ||| low = high * 2 ^ bits + low := by
  rw [← Nat.shiftLeft_add_eq_or_of_lt hlow, Nat.shiftLeft_eq]

theorem byteAt_zero (a : Byte) (s : Bytes) : byteAt (a :: s) 0 = a.toNat := rfl

theorem byteAt_one (a b : Byte) (s : Bytes) :
    byteAt (a :: b :: s) 1 = b.toNat := rfl

theorem byteAt_two (a b c : Byte) (s : Bytes) :
    byteAt (a :: b :: c :: s) 2 = c.toNat := rfl

theorem byteAt_three (a b c d : Byte) (s : Bytes) :
    byteAt (a :: b :: c :: d :: s) 3 = d.toNat := rfl

/-- A byte that continues a character. -/
def IsTail (byte : Byte) : Prop :=
  128 ≤ byte.toNat ∧ byte.toNat < 192

theorem and_c0_eq {byte : Byte} (hbyte : IsTail byte) :
    byte.toNat &&& 0xc0 = 0x80 :=
  (and_c0_iff byte.toNat_lt).2 hbyte

variable {a : Byte}

theorem utf8ToUnicode_one (ha : 0 < a.toNat ∧ a.toNat < 0x80)
    (rest : Bytes) : utf8ToUnicode (a :: rest) = some (a.toNat, 1) := by
  have hnonzero : a.toNat ≠ 0 := by omega
  unfold utf8ToUnicode
  rw [byteAt_zero]
  simp only [if_neg hnonzero, if_pos ha.2]

theorem utf8ToUnicode_two {b : Byte} (ha : 0xc2 ≤ a.toNat ∧ a.toNat < 0xe0)
    (hb : IsTail b) (rest : Bytes) :
    utf8ToUnicode (a :: b :: rest) =
      some (a.toNat % 32 * 64 + b.toNat % 64, 2) := by
  have hpack : (a.toNat &&& 0x1f) <<< 6 ||| (b.toNat &&& 0x3f) =
      a.toNat % 32 * 64 + b.toNat % 64 := by
    have hlow : b.toNat % 64 < 2 ^ 6 := Nat.mod_lt _ (by decide)
    rw [and_3f, Nat.and_two_pow_sub_one_eq_mod a.toNat 5, shiftLeft_or hlow]
    rfl
  have hnonzero : a.toNat ≠ 0 := by omega
  have hone : ¬ a.toNat < 0x80 := by omega
  have htail : ¬ a.toNat < 0xc2 := by omega
  unfold utf8ToUnicode
  rw [byteAt_zero, byteAt_one]
  simp only [if_neg hnonzero, if_neg hone, if_neg htail, if_pos ha.2,
    if_pos (and_c0_eq hb), hpack]

/-- The value of three bytes. -/
def value3 (a b c : Byte) : ℕ :=
  a.toNat % 16 * 4096 + b.toNat % 64 * 64 + c.toNat % 64

theorem utf8ToUnicode_three {b c : Byte}
    (ha : 0xe0 ≤ a.toNat ∧ a.toNat < 0xf0) (hb : IsTail b) (hc : IsTail c)
    (rest : Bytes) :
    utf8ToUnicode (a :: b :: c :: rest) =
      if (0x800 ≤ value3 a b c ∧ value3 a b c ≤ 0xd7ff) ∨
          (0xe000 ≤ value3 a b c ∧ value3 a b c ≤ 0xffff) then
        some (value3 a b c, 3)
      else none := by
  have hpack : (a.toNat &&& 0x0f) <<< 12 ||| (b.toNat &&& 0x3f) <<< 6 |||
      (c.toNat &&& 0x3f) = value3 a b c := by
    have hlow : c.toNat % 64 < 2 ^ 6 := Nat.mod_lt _ (by decide)
    have hmiddle : b.toNat % 64 * 2 ^ 6 + c.toNat % 64 < 2 ^ 12 := by omega
    rw [and_3f, and_3f, Nat.and_two_pow_sub_one_eq_mod a.toNat 4,
      Nat.or_assoc, shiftLeft_or hlow, shiftLeft_or hmiddle, value3]
    omega
  have hnonzero : a.toNat ≠ 0 := by omega
  have hone : ¬ a.toNat < 0x80 := by omega
  have htail : ¬ a.toNat < 0xc2 := by omega
  have htwo : ¬ a.toNat < 0xe0 := by omega
  unfold utf8ToUnicode
  rw [byteAt_zero, byteAt_one, byteAt_two]
  simp only [if_neg hnonzero, if_neg hone, if_neg htail, if_neg htwo,
    if_pos ha.2, if_pos (And.intro (and_c0_eq hb) (and_c0_eq hc)), hpack]

/-- The value of four bytes. -/
def value4 (a b c d : Byte) : ℕ :=
  a.toNat % 8 * 262144 + b.toNat % 64 * 4096 + c.toNat % 64 * 64 + d.toNat % 64

theorem utf8ToUnicode_four {b c d : Byte}
    (ha : 0xf0 ≤ a.toNat ∧ a.toNat < 0xf5) (hb : IsTail b) (hc : IsTail c)
    (hd : IsTail d) (rest : Bytes) :
    utf8ToUnicode (a :: b :: c :: d :: rest) =
      if value4 a b c d ≤ 0x10ffff ∧ 0x10000 ≤ value4 a b c d then
        some (value4 a b c d, 4)
      else none := by
  have hpack : (a.toNat &&& 0x07) <<< 18 ||| (b.toNat &&& 0x3f) <<< 12 |||
      (c.toNat &&& 0x3f) <<< 6 ||| (d.toNat &&& 0x3f) = value4 a b c d := by
    have hlow : d.toNat % 64 < 2 ^ 6 := Nat.mod_lt _ (by decide)
    have hthird : c.toNat % 64 * 2 ^ 6 + d.toNat % 64 < 2 ^ 12 := by omega
    have hsecond : b.toNat % 64 * 2 ^ 12 +
        (c.toNat % 64 * 2 ^ 6 + d.toNat % 64) < 2 ^ 18 := by omega
    rw [and_3f, and_3f, and_3f, Nat.and_two_pow_sub_one_eq_mod a.toNat 3,
      Nat.or_assoc, Nat.or_assoc, shiftLeft_or hlow, shiftLeft_or hthird,
      shiftLeft_or hsecond, value4]
    omega
  have hnonzero : a.toNat ≠ 0 := by omega
  have hone : ¬ a.toNat < 0x80 := by omega
  have htail : ¬ a.toNat < 0xc2 := by omega
  have htwo : ¬ a.toNat < 0xe0 := by omega
  have hthree : ¬ a.toNat < 0xf0 := by omega
  unfold utf8ToUnicode
  rw [byteAt_zero, byteAt_one, byteAt_two, byteAt_three]
  simp only [if_neg hnonzero, if_neg hone, if_neg htail, if_neg htwo,
    if_neg hthree, if_pos ha.2, if_pos (And.intro (and_c0_eq hb)
      (And.intro (and_c0_eq hc) (and_c0_eq hd))), hpack]

/-- The numbers that are characters. -/
theorem toNat_cases (char : Char) :
    char.toNat < 0xd800 ∨ (0xdfff < char.toNat ∧ char.toNat < 0x110000) :=
  char.valid

theorem toNat_ofNat {code : ℕ} (hcode : code < 256) :
    (UInt8.ofNat code).toNat = code := by
  rw [UInt8.toNat_ofNat', Nat.mod_eq_of_lt hcode]

/-- The bytes of a character, by its number. -/
inductive Encoded (code : ℕ) : Bytes → Prop
  | one {a : Byte} (hcode : code < 0x80) (ha : a.toNat = code) :
      Encoded code [a]
  | two {a b : Byte} (hcode : 0x80 ≤ code ∧ code < 0x800)
      (ha : a.toNat = code / 64 + 0xc0) (hb : b.toNat = code % 64 + 0x80) :
      Encoded code [a, b]
  | three {a b c : Byte} (hcode : 0x800 ≤ code ∧ code < 0x10000)
      (ha : a.toNat = code / 4096 + 0xe0)
      (hb : b.toNat = code / 64 % 64 + 0x80) (hc : c.toNat = code % 64 + 0x80) :
      Encoded code [a, b, c]
  | four {a b c d : Byte} (hcode : 0x10000 ≤ code ∧ code < 0x110000)
      (ha : a.toNat = code / 262144 + 0xf0)
      (hb : b.toNat = code / 4096 % 64 + 0x80)
      (hc : c.toNat = code / 64 % 64 + 0x80) (hd : d.toNat = code % 64 + 0x80) :
      Encoded code [a, b, c, d]

theorem encoded (char : Char) :
    Encoded char.toNat (String.utf8EncodeChar char) := by
  have hvalid := toNat_cases char
  have hval : char.val.toNat = char.toNat := rfl
  have hbyte : ∀ {code value : ℕ}, code < 256 → code = value →
      (UInt8.ofNat code).toNat = value :=
    fun hcode hvalue => (toNat_ofNat hcode).trans hvalue
  simp only [String.utf8EncodeChar, hval]
  generalize char.toNat = v at *
  split
  · exact .one (by omega) (hbyte (by omega) rfl)
  split
  · exact .two (by omega) (hbyte (by omega) (by omega)) (hbyte (by omega) rfl)
  split
  · exact .three (by omega) (hbyte (by omega) (by omega))
      (hbyte (by omega) rfl) (hbyte (by omega) rfl)
  · exact .four (by omega) (hbyte (by omega) (by omega))
      (hbyte (by omega) rfl) (hbyte (by omega) rfl) (hbyte (by omega) rfl)

variable {s t : Bytes}

/-- A number has one encoding. -/
theorem Encoded.unique {code : ℕ} (hs : Encoded code s)
    (ht : Encoded code t) : s = t := by
  have hbyte : ∀ {a b : Byte} {value : ℕ}, a.toNat = value → b.toNat = value →
      a = b := fun ha hb => UInt8.toNat_inj.1 (ha.trans hb.symm)
  cases hs with
  | one hcode ha =>
    cases ht with
    | one _ ha' => rw [hbyte ha ha']
    | _ => omega
  | two hcode ha hb =>
    cases ht with
    | two _ ha' hb' => rw [hbyte ha ha', hbyte hb hb']
    | _ => omega
  | three hcode ha hb hc =>
    cases ht with
    | three _ ha' hb' hc' => rw [hbyte ha ha', hbyte hb hb', hbyte hc hc']
    | _ => omega
  | four hcode ha hb hc hd =>
    cases ht with
    | four _ ha' hb' hc' hd' =>
      rw [hbyte ha ha', hbyte hb hb', hbyte hc hc', hbyte hd hd']
    | _ => omega

/-- Decoding finds the character that was encoded. -/
theorem utf8ToUnicode_encode {char : Char} (hchar : char.toNat ≠ 0)
    (rest : Bytes) :
    utf8ToUnicode (String.utf8EncodeChar char ++ rest) =
      some (char.toNat, (String.utf8EncodeChar char).length) := by
  have hvalid := toNat_cases char
  have hencoded := encoded char
  generalize String.utf8EncodeChar char = s at *
  generalize char.toNat = v at *
  cases hencoded with
  | one hcode ha =>
    rw [singleton_append, utf8ToUnicode_one (by omega), ha]
    rfl
  | two hcode ha hb =>
    refine (utf8ToUnicode_two (by omega) ⟨by omega, by omega⟩ rest).trans ?_
    rw [ha, hb]
    congr 2
    omega
  | @three a b c hcode ha hb hc =>
    have hvalue : value3 a b c = v := by
      rw [value3]
      omega
    refine (utf8ToUnicode_three (by omega) ⟨by omega, by omega⟩
      ⟨by omega, by omega⟩ rest).trans ?_
    rw [hvalue, if_pos (by omega)]
    rfl
  | @four a b c d hcode ha hb hc hd =>
    have hvalue : value4 a b c d = v := by
      rw [value4]
      omega
    refine (utf8ToUnicode_four (by omega) ⟨by omega, by omega⟩
      ⟨by omega, by omega⟩ ⟨by omega, by omega⟩ rest).trans ?_
    rw [hvalue, if_pos (by omega)]
    rfl

theorem encode_one {char : Char} (hchar : char.toNat = a.toNat)
    (ha : a.toNat < 0x80) : String.utf8EncodeChar char = [a] :=
  (encoded char).unique (.one (by omega) hchar.symm)

/-- A continuation byte is there and is not the NUL. -/
theorem exists_tail (hbyte : byteAt s 0 &&& 0xc0 = 0x80) :
    ∃ byte rest, s = byte :: rest ∧ IsTail byte := by
  cases s with
  | nil => exact absurd hbyte (by decide)
  | cons byte rest =>
    exact ⟨byte, rest, rfl, (and_c0_iff byte.toNat_lt).1 hbyte⟩

/-- The shapes of what can be decoded. -/
inductive Sequence : Bytes → Prop
  | one {a : Byte} (rest : Bytes) (ha : 0 < a.toNat ∧ a.toNat < 0x80) :
      Sequence (a :: rest)
  | two {a b : Byte} (rest : Bytes) (ha : 0xc2 ≤ a.toNat ∧ a.toNat < 0xe0)
      (hb : IsTail b) : Sequence (a :: b :: rest)
  | three {a b c : Byte} (rest : Bytes) (ha : 0xe0 ≤ a.toNat ∧ a.toNat < 0xf0)
      (hb : IsTail b) (hc : IsTail c) : Sequence (a :: b :: c :: rest)
  | four {a b c d : Byte} (rest : Bytes)
      (ha : 0xf0 ≤ a.toNat ∧ a.toNat < 0xf5) (hb : IsTail b) (hc : IsTail c)
      (hd : IsTail d) : Sequence (a :: b :: c :: d :: rest)

theorem sequence_of_decode {wc m : ℕ}
    (hdecode : utf8ToUnicode (a :: s) = some (wc, m)) (ha : a.toNat ≠ 0) :
    Sequence (a :: s) := by
  unfold utf8ToUnicode at hdecode
  rw [byteAt_zero] at hdecode
  simp only [if_neg ha] at hdecode
  split at hdecode
  · exact .one s (by omega)
  split at hdecode
  · cases hdecode
  split at hdecode
  · split at hdecode
    · next htail =>
      obtain ⟨b, rest, rfl, hb⟩ := exists_tail htail
      exact .two rest (by omega) hb
    · cases hdecode
  split at hdecode
  · split at hdecode
    · next htails =>
      obtain ⟨b, s, rfl, hb⟩ := exists_tail htails.1
      obtain ⟨c, rest, rfl, hc⟩ := exists_tail htails.2
      exact .three rest (by omega) hb hc
    · cases hdecode
  split at hdecode
  · split at hdecode
    · next htails =>
      obtain ⟨b, s, rfl, hb⟩ := exists_tail htails.1
      obtain ⟨c, s, rfl, hc⟩ := exists_tail htails.2.1
      obtain ⟨d, rest, rfl, hd⟩ := exists_tail htails.2.2
      exact .four rest (by omega) hb hc hd
    · cases hdecode
  · cases hdecode

theorem encoded_of_decode {wc m : ℕ}
    (hdecode : utf8ToUnicode (a :: s) = some (wc, m)) (ha : a.toNat ≠ 0) :
    ∃ front rest, a :: s = front ++ rest ∧ m = front.length ∧
      Encoded wc front ∧ wc.isValidChar := by
  cases sequence_of_decode hdecode ha with
  | one _ ha =>
    rw [utf8ToUnicode_one ha] at hdecode
    cases hdecode
    exact ⟨[a], s, rfl, rfl, .one ha.2 rfl, .inl (by omega)⟩
  | @two _ b rest ha hb =>
    rw [utf8ToUnicode_two ha hb] at hdecode
    cases hdecode
    obtain ⟨hlow, hhigh⟩ := hb
    refine ⟨[a, b], rest, rfl, rfl, ?_, .inl (by omega)⟩
    exact .two (by omega) (by omega) (by omega)
  | @three _ b c rest ha hb hc =>
    rw [utf8ToUnicode_three ha hb hc, value3] at hdecode
    obtain ⟨hblow, hbhigh⟩ := hb
    obtain ⟨hclow, hchigh⟩ := hc
    split at hdecode
    · cases hdecode
      refine ⟨[a, b, c], rest, rfl, rfl, ?_, by rw [Nat.isValidChar]; omega⟩
      exact .three (by omega) (by omega) (by omega) (by omega)
    · cases hdecode
  | @four _ b c d rest ha hb hc hd =>
    rw [utf8ToUnicode_four ha hb hc hd, value4] at hdecode
    obtain ⟨hblow, hbhigh⟩ := hb
    obtain ⟨hclow, hchigh⟩ := hc
    obtain ⟨hdlow, hdhigh⟩ := hd
    split at hdecode
    · cases hdecode
      refine ⟨[a, b, c, d], rest, rfl, rfl, ?_, .inr (by omega)⟩
      exact .four (by omega) (by omega) (by omega) (by omega) (by omega)
    · cases hdecode

theorem exists_char_of_decode {wc m : ℕ}
    (hdecode : utf8ToUnicode (a :: s) = some (wc, m)) (ha : a.toNat ≠ 0) :
    ∃ (char : Char) (rest : Bytes),
      a :: s = String.utf8EncodeChar char ++ rest ∧
        m = (String.utf8EncodeChar char).length := by
  obtain ⟨front, rest, hs, hm, hencoded, hvalid⟩ := encoded_of_decode hdecode ha
  obtain ⟨char, rfl⟩ : ∃ char : Char, char.toNat = wc :=
    ⟨Char.ofNatAux wc hvalid, rfl⟩
  rw [← (encoded char).unique hencoded] at hs hm
  exact ⟨char, rest, hs, hm⟩

/-! ## The first pass -/

/-- The first byte says how far to go, also where the end comes before. -/
theorem countUnits_cons (a : Byte) (s : Bytes) :
    countUnits (a :: s) =
      if a.toNat < 192 then (countUnits s).map (· + 1)
      else if 245 ≤ a.toNat then none
      else if a.toNat < 224 then (countUnits (s.drop 1)).map (· + 1)
      else if a.toNat < 240 then (countUnits (s.drop 2)).map (· + 1)
      else if s.drop 2 = [] then some 1
      else (countUnits (s.drop 3)).map (· + 2) := by
  have hnil : countUnits [] = some 0 := by rw [countUnits]
  rw [countUnits]
  simp only [UInt8.lt_iff_toNat_lt, UInt8.le_iff_toNat_le, UInt8.reduceToNat]
  split
  · rfl
  split
  · rfl
  rcases s with _ | ⟨b, _ | ⟨c, _ | ⟨d, s⟩⟩⟩
  · simp [hnil]
  · simp [hnil]
  · split_ifs <;> first | rfl | omega | simp_all
  · split_ifs <;> first | rfl | omega | simp_all

theorem countUnits_encode (char : Char) (rest : Bytes) :
    countUnits (String.utf8EncodeChar char ++ rest) =
      (countUnits rest).map (· + (unitsOf char.toNat).length) := by
  have hunits : (unitsOf char.toNat).length =
      if char.toNat < 0x10000 then 1 else 2 := by
    rw [unitsOf]
    split <;> rfl
  rw [hunits]
  have hencoded := encoded char
  generalize String.utf8EncodeChar char = s at *
  generalize char.toNat = v at *
  cases hencoded with
  | one hcode ha =>
    rw [cons_append, countUnits_cons, if_pos (by omega), if_pos (by omega)]
    rfl
  | two hcode ha hb =>
    rw [cons_append, countUnits_cons, if_neg (by omega), if_neg (by omega),
      if_pos (by omega), if_pos (by omega)]
    rfl
  | three hcode ha hb hc =>
    rw [cons_append, countUnits_cons, if_neg (by omega), if_neg (by omega),
      if_neg (by omega), if_pos (by omega), if_pos (by omega)]
    rfl
  | four hcode ha hb hc hd =>
    rw [cons_append, countUnits_cons, if_neg (by omega), if_neg (by omega),
      if_neg (by omega), if_neg (by omega), if_neg (by simp), if_neg (by omega)]
    rfl

def unitsOfText : List UInt16 :=
  chars.flatMap fun char => unitsOf char.toNat

theorem countUnits_encode_text :
    countUnits (encode chars) = some (unitsOfText chars).length := by
  induction chars with
  | nil =>
    rw [encode, flatMap_nil, countUnits]
    rfl
  | cons char chars ih =>
    have hlength : (unitsOfText (char :: chars)).length =
        (unitsOfText chars).length + (unitsOf char.toNat).length := by
      simp [unitsOfText, Nat.add_comm]
    rw [encode, flatMap_cons, countUnits_encode, ← encode, ih, hlength]
    rfl

/-! ## The second pass -/

/-- A conversion that fails only for want of room. -/
def Writes (conv : UInt16 → ℕ → Option Bytes) (text : UInt16 → Bytes) : Prop :=
  ∀ u rem, conv u rem = if (text u).length < rem then some (text u) else none

section Convert

variable {conv : UInt16 → ℕ → Option Bytes} {text : UInt16 → Bytes}
variable {outSize : ℕ} {outs : Bytes}

theorem convert_fail (hdecode : utf8ToUnicode t = none) :
    convert conv outSize outs t = none := by
  rw [convert]
  split
  · rfl
  · next hsome => rw [hdecode] at hsome; cases hsome

theorem convert_stop {wc : ℕ} (hdecode : utf8ToUnicode t = some (wc, 0)) :
    convert conv outSize outs t = some outs := by
  rw [convert]
  split
  · next hnone => rw [hdecode] at hnone; cases hnone
  · next hsome =>
    rw [hdecode] at hsome
    cases hsome
    rw [dif_pos rfl]

theorem convert_step {wc m : ℕ}
    (hdecode : utf8ToUnicode t = some (wc, m)) (hm : m ≠ 0) :
    convert conv outSize outs t =
      ((unitsOf wc).foldlM (putUnit conv outSize) outs).bind fun outs =>
        convert conv outSize outs (t.drop m) := by
  rw [convert]
  split
  · next hnone => rw [hdecode] at hnone; cases hnone
  · next hsome =>
    rw [hdecode] at hsome
    cases hsome
    rw [dif_neg hm]

/-- Units are written one after the other as long as there is room. -/
theorem foldlM_putUnit (hwrites : Writes conv text)
    (houts : outs.length < outSize) (units : List UInt16) :
    units.foldlM (putUnit conv outSize) outs =
      if (outs ++ units.flatMap text).length < outSize then
        some (outs ++ units.flatMap text)
      else none := by
  induction units generalizing outs with
  | nil => simp [houts]
  | cons unit units ih =>
    rw [foldlM_cons, putUnit, hwrites, flatMap_cons, ← append_assoc]
    by_cases hroom : (text unit).length < outSize - outs.length
    · have hnext : (outs ++ text unit).length < outSize := by
        rw [length_append]
        omega
      rw [if_pos hroom, ← ih hnext]
      rfl
    · have hfull : ¬ (outs ++ text unit ++ units.flatMap text).length <
          outSize := by
        simp only [length_append]
        omega
      rw [if_neg hroom, if_neg hfull]
      rfl

/-- The second pass writes the units of a text, if they all fit. -/
theorem convert_encode (hwrites : Writes conv text)
    (houts : outs.length < outSize) {chars : List Char}
    (hchars : ∀ char ∈ chars, char.toNat ≠ 0) :
    convert conv outSize outs (encode chars) =
      if (outs ++ (unitsOfText chars).flatMap text).length < outSize then
        some (outs ++ (unitsOfText chars).flatMap text)
      else none := by
  induction chars generalizing outs with
  | nil =>
    have hend : utf8ToUnicode (encode []) = some (0, 0) := rfl
    rw [convert_stop hend]
    simp [unitsOfText, houts]
  | cons char chars ih =>
    rw [forall_mem_cons] at hchars
    have hdecode := utf8ToUnicode_encode hchars.1 (encode chars)
    have hlength : (String.utf8EncodeChar char).length ≠ 0 := fun hzero =>
      String.utf8EncodeChar_ne_nil (length_eq_zero_iff.1 hzero)
    have hunits : (unitsOfText (char :: chars)).flatMap text =
        (unitsOf char.toNat).flatMap text ++
          (unitsOfText chars).flatMap text := by
      simp [unitsOfText]
    rw [encode, flatMap_cons, ← encode, convert_step hdecode hlength, drop_left,
      foldlM_putUnit hwrites houts, hunits, ← append_assoc]
    by_cases hroom : (outs ++ (unitsOf char.toNat).flatMap text).length <
        outSize
    · rw [if_pos hroom, Option.bind_some, ih hroom hchars.2]
    have hfull : ¬ (outs ++ (unitsOf char.toNat).flatMap text ++
        (unitsOfText chars).flatMap text).length < outSize := by
      rw [length_append] at hroom ⊢
      rw [length_append]
      omega
    rw [if_neg hroom, if_neg hfull]
    rfl

end Convert

/-- Only UTF-8 gets through the second pass. -/
theorem validUtf8_of_convert {conv : UInt16 → ℕ → Option Bytes} {outSize : ℕ}
    {outs text : Bytes} (ht : NulFree t)
    (hconvert : convert conv outSize outs t = some text) : ValidUtf8 t := by
  induction hlength : t.length using Nat.strong_induction_on
    generalizing outs t with
  | _ length ih =>
  subst hlength
  cases t with
  | nil => exact ⟨[], rfl⟩
  | cons a s =>
    have hnonzero : a.toNat ≠ 0 := fun hzero =>
      (nulFree_cons.1 ht).1 (UInt8.toNat_inj.1 hzero)
    cases hdecode : utf8ToUnicode (a :: s) with
    | none =>
      rw [convert_fail hdecode] at hconvert
      cases hconvert
    | some decoded =>
      obtain ⟨wc, m⟩ := decoded
      obtain ⟨char, rest, hs, rfl⟩ := exists_char_of_decode hdecode hnonzero
      have hlength := length_pos_iff.2
        (String.utf8EncodeChar_ne_nil : String.utf8EncodeChar char ≠ [])
      rw [convert_step hdecode hlength.ne', Option.bind_eq_some_iff] at hconvert
      obtain ⟨outs, -, hconvert⟩ := hconvert
      rw [hs, drop_left] at hconvert
      have hshorter : rest.length < (a :: s).length := by
        rw [hs, length_append]
        omega
      rw [hs] at ht
      obtain ⟨chars, hrest⟩ := ih rest.length hshorter
        (nulFree_append.1 ht).2 hconvert rfl
      exact ⟨char :: chars, by rw [hs, hrest, encode, encode, flatMap_cons]⟩

/-! ## Both passes -/

theorem toInt_ofNat_cases (count : ℕ) :
    (count % 2 ^ 32 < 2 ^ 31 ∧
      (BitVec.ofNat 32 count).toInt = (count % 2 ^ 32 : ℕ)) ∨
    (2 ^ 31 ≤ count % 2 ^ 32 ∧ (BitVec.ofNat 32 count).toInt < 0) := by
  rw [BitVec.toInt_eq_toNat_cond, BitVec.toNat_ofNat]
  split
  · next hsmall => exact .inl ⟨by omega, rfl⟩
  · next hlarge => exact .inr ⟨by omega, by omega⟩

/-- The number of the units is a positive `int`, and what is written for them
fits a buffer of its size. -/
def Estimated (csize : ℕ) (text : UInt16 → Bytes) (units : List UInt16) : Prop :=
  0 < units.length % 2 ^ 32 ∧ units.length % 2 ^ 32 < 2 ^ 31 ∧
    (units.flatMap text).length ≤ csize * (units.length % 2 ^ 32 + 1)

instance (csize : ℕ) (text : UInt16 → Bytes) (units : List UInt16) :
    Decidable (Estimated csize text units) :=
  inferInstanceAs (Decidable (_ ∧ _))

section

variable {conv : UInt16 → ℕ → Option Bytes} {text : UInt16 → Bytes}
variable {csize : ℕ}

theorem length_flatMap_text_le (hwidth : ∀ u, (text u).length ≤ csize)
    (units : List UInt16) :
    (units.flatMap text).length ≤ csize * units.length := by
  induction units with
  | nil => simp
  | cons unit units ih =>
    have hunit := hwidth unit
    rw [flatMap_cons, length_append, length_cons, Nat.mul_succ]
    omega

/-- Below 2³¹ units the estimate is large enough. -/
theorem estimated_of_length_lt (hwidth : ∀ u, (text u).length ≤ csize)
    {units : List UInt16} (hne : units ≠ []) (hlength : units.length < 2 ^ 31) :
    Estimated csize text units := by
  have hsum := length_flatMap_text_le hwidth units
  have hpos := length_pos_of_ne_nil hne
  rw [Estimated, Nat.mod_eq_of_lt (hlength.trans (by decide))]
  exact ⟨hpos, hlength, hsum.trans (Nat.mul_le_mul_left _ (Nat.le_succ _))⟩

/-- A text comes out exactly when it fits the estimate. -/
theorem utf8ToString_encode (hwrites : Writes conv text) (hcsize : csize ≠ 0)
    (hlimit : 2 ^ 31 ≤ (sizeMax - 1) / csize - 1) {chars : List Char}
    (hchars : ∀ char ∈ chars, char.toNat ≠ 0) :
    utf8ToString (encode chars) csize conv =
      if Estimated csize text (unitsOfText chars) then
        some ((unitsOfText chars).flatMap text)
      else none := by
  have hsize : utf8ToUtf16Size (encode chars) =
      (BitVec.ofNat 32 (unitsOfText chars).length).toInt := by
    rw [utf8ToUtf16Size, countUnits_encode_text]
  rw [utf8ToString, hsize]
  rcases toInt_ofNat_cases (unitsOfText chars).length with
    ⟨hless, hint⟩ | ⟨hlarge, hint⟩
  · rw [hint]
    by_cases hzero : (unitsOfText chars).length % 2 ^ 32 = 0
    · have hnot : ¬ Estimated csize text (unitsOfText chars) := by
        rw [Estimated]
        omega
      rw [if_neg hnot, if_pos (by omega)]
    · simp only [Int.toNat_natCast]
      rw [if_neg (by omega), if_neg (by omega),
        convert_encode hwrites (by simp) hchars, nil_append]
      refine if_congr ?_ rfl rfl
      rw [Estimated, Nat.mul_comm csize]
      omega
  · have hnot : ¬ Estimated csize text (unitsOfText chars) := by
      rw [Estimated]
      omega
    rw [if_neg hnot, if_pos (by omega)]

theorem utf8ToString_of_not_validUtf8 (hs : NulFree s)
    (hinvalid : ¬ ValidUtf8 s) : utf8ToString s csize conv = none := by
  rw [utf8ToString]
  split
  · rfl
  split
  · rfl
  cases hconvert : convert conv (((utf8ToUtf16Size s).toNat + 1) * csize + 1)
      [] s with
  | none => rfl
  | some text => exact absurd (validUtf8_of_convert hs hconvert) hinvalid

end

end Tomato64.Utf8
