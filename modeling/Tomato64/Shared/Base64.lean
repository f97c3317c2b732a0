import Tomato64.Core.Text

/-!
# Base64

The coder of `base64.c`.  The decoder stops at the first `=` and passes over
every character outside the alphabet, so a text decodes alike with and without
its padding.  A text that was cut short decodes to the whole bytes that are
left.
-/

namespace Tomato64.Base64

open List Text

def base64Xlat : Bytes :=
  bytes "ABCDEFGHIJKLMNOPQRSTUVWXYZabcdefghijklmnopqrstuvwxyz0123456789+/"

/-- `base64_xlat[index]`, where the array ends with its NUL. -/
def xlat (index : ℕ) : Byte :=
  base64Xlat.getD index 0

/-- `strchr(base64_xlat, char) - base64_xlat`.  The search also finds the NUL
at the end of the array. -/
def xlatIndex (char : Byte) : Option ℕ :=
  (base64Xlat ++ [0]).findIdx? (· = char)

def base64Encode : Bytes → Bytes
  | a :: b :: c :: rest =>
    xlat (a.toNat >>> 2) ::
    xlat (((a.toNat <<< 4) &&& 0x3F) ||| (b.toNat >>> 4)) ::
    xlat (((b.toNat <<< 2) &&& 0x3F) ||| (c.toNat >>> 6)) ::
    xlat (c.toNat &&& 0x3F) :: base64Encode rest
  | [a, b] =>
    [xlat (a.toNat >>> 2),
      xlat (((a.toNat <<< 4) &&& 0x3F) ||| (b.toNat >>> 4)),
      xlat ((b.toNat <<< 2) &&& 0x3F), 61]
  | [a] =>
    [xlat (a.toNat >>> 2), xlat ((a.toNat <<< 4) &&& 0x3F), 61, 61]
  | [] => []

/-- The bytes of a group that the end of the text has cut short. -/
def decodeTail (count x : ℕ) : Bytes :=
  if count = 3 then
    [UInt8.ofNat (x >>> 10), UInt8.ofNat ((x >>> 2) &&& 0xFF)]
  else if count = 2 then [UInt8.ofNat (x >>> 4)]
  else []

/-- The loop of the decoder: `x` holds the `count` digits of the group at
hand. -/
def decodeLoop : Bytes → ℕ → ℕ → Bytes
  | [], count, x => decodeTail count x
  | char :: rest, count, x =>
    if char = 61 then decodeTail count x
    else
      match xlatIndex char with
      | none => decodeLoop rest count x
      | some index =>
        let x := (x <<< 6) ||| index
        if count + 1 = 4 then
          UInt8.ofNat (x >>> 16) :: UInt8.ofNat ((x >>> 8) &&& 0xFF) ::
            UInt8.ofNat (x &&& 0xFF) :: decodeLoop rest 0 0
        else decodeLoop rest (count + 1) x

variable (text : Bytes)

/-- The length of the text is passed as an `int`. -/
def base64Decode : Bytes :=
  let inlen := Int.bmod text.length (2 ^ 32)
  decodeLoop (text.take inlen.toNat) 0 0

def intMax : ℕ := 2 ^ 31 - 1

def base64DecodedLen (length : ℕ) : ℕ :=
  if intMax - 3 < length then 0 else (length + 3) / 4 * 3

def base64EncodedLen (length : ℕ) : ℕ :=
  if intMax - 2 < length then 0 else (length + 2) / 3 * 4

/-! ## Digits -/

/-- The six bit digits of a text. -/
def packed : Bytes → List ℕ
  | a :: b :: c :: rest =>
    a.toNat / 4 :: (a.toNat % 4 * 16 + b.toNat / 16) ::
      (b.toNat % 16 * 4 + c.toNat / 64) :: c.toNat % 64 :: packed rest
  | [a, b] =>
    [a.toNat / 4, a.toNat % 4 * 16 + b.toNat / 16, b.toNat % 16 * 4]
  | [a] => [a.toNat / 4, a.toNat % 4 * 16]
  | [] => []

/-- The loop of the decoder over digits. -/
def decodeDigits : List ℕ → ℕ → ℕ → Bytes
  | [], count, x => decodeTail count x
  | digit :: rest, count, x =>
    let x := (x <<< 6) ||| digit
    if count + 1 = 4 then
      UInt8.ofNat (x >>> 16) :: UInt8.ofNat ((x >>> 8) &&& 0xFF) ::
        UInt8.ofNat (x &&& 0xFF) :: decodeDigits rest 0 0
    else decodeDigits rest (count + 1) x

theorem length_packed : (packed text).length = (4 * text.length + 2) / 3 := by
  induction text using packed.induct with
  | case1 a b c rest ih =>
    simp only [packed, length_cons, ih]
    omega
  | case2 a b => simp [packed]
  | case3 a => simp [packed]
  | case4 => simp [packed]

theorem lt_of_mem_packed {text : Bytes} :
    ∀ digit ∈ packed text, digit < 64 := by
  induction text using packed.induct with
  | case1 a b c rest ih =>
    have ha := a.toNat_lt
    have hb := b.toNat_lt
    have hc := c.toNat_lt
    simp only [packed, forall_mem_cons]
    exact ⟨by omega, by omega, by omega, by omega, ih⟩
  | case2 a b =>
    have ha := a.toNat_lt
    have hb := b.toNat_lt
    simp only [packed, forall_mem_cons]
    exact ⟨by omega, by omega, by omega, by simp⟩
  | case3 a =>
    have ha := a.toNat_lt
    simp only [packed, forall_mem_cons]
    exact ⟨by omega, by omega, by simp⟩
  | case4 => simp [packed]

/-! ## The alphabet -/

theorem xlatIndex_xlat {index : ℕ} (hindex : index < 64) :
    xlatIndex (xlat index) = some index := by
  have hall : ∀ index < 64, xlatIndex (xlat index) = some index := by
    decide +kernel
  exact hall index hindex

theorem xlat_ne_pad {index : ℕ} (hindex : index < 64) : xlat index ≠ 61 := by
  have hall : ∀ index < 64, xlat index ≠ 61 := by decide +kernel
  exact hall index hindex

/-! ## Encoding -/

theorem shl_four_and (a : ℕ) : (a <<< 4) &&& 0x3F = a % 4 * 16 := by
  rw [show 0x3F = 2 ^ 6 - 1 from rfl, Nat.and_two_pow_sub_one_eq_mod,
    Nat.shiftLeft_eq]
  omega

theorem shl_two_and (a : ℕ) : (a <<< 2) &&& 0x3F = a % 16 * 4 := by
  rw [show 0x3F = 2 ^ 6 - 1 from rfl, Nat.and_two_pow_sub_one_eq_mod,
    Nat.shiftLeft_eq]
  omega

theorem shl_four_or (a b : Byte) :
    ((a.toNat <<< 4) &&& 0x3F) ||| (b.toNat >>> 4) =
      a.toNat % 4 * 16 + b.toNat / 16 := by
  have hb := b.toNat_lt
  rw [shl_four_and, Nat.shiftRight_eq_div_pow, Nat.mul_comm,
    show 16 = 2 ^ 4 from rfl, ← Nat.two_pow_add_eq_or_of_lt (by omega)]

theorem shl_two_or (b c : Byte) :
    ((b.toNat <<< 2) &&& 0x3F) ||| (c.toNat >>> 6) =
      b.toNat % 16 * 4 + c.toNat / 64 := by
  have hc := c.toNat_lt
  rw [shl_two_and, Nat.shiftRight_eq_div_pow, Nat.mul_comm _ 4,
    show 4 = 2 ^ 2 from rfl, ← Nat.two_pow_add_eq_or_of_lt (by omega)]

/-- The number of `=` behind the digits. -/
def padding : ℕ :=
  (3 - text.length % 3) % 3

theorem base64Encode_eq :
    base64Encode text =
      (packed text).map xlat ++ replicate (padding text) 61 := by
  induction text using packed.induct with
  | case1 a b c rest ih =>
    have hpadding : padding (a :: b :: c :: rest) = padding rest := by
      simp only [padding, length_cons]
      omega
    rw [base64Encode, ih, packed, hpadding, shl_four_or, shl_two_or,
      show 0x3F = 2 ^ 6 - 1 from rfl, Nat.and_two_pow_sub_one_eq_mod,
      Nat.shiftRight_eq_div_pow]
    rfl
  | case2 a b =>
    rw [base64Encode, packed, shl_four_or, shl_two_and,
      Nat.shiftRight_eq_div_pow]
    rfl
  | case3 a =>
    rw [base64Encode, packed, shl_four_and, Nat.shiftRight_eq_div_pow]
    rfl
  | case4 => simp [base64Encode, packed, padding]

theorem length_base64Encode :
    (base64Encode text).length = (text.length + 2) / 3 * 4 := by
  rw [base64Encode_eq, length_append, length_map, length_packed,
    length_replicate, padding]
  omega

/-! ## Decoding -/

/-- Padding is not needed to decode a text. -/
theorem decodeLoop_digits {digits : List ℕ}
    (hdigits : ∀ digit ∈ digits, digit < 64) (pads count x : ℕ) :
    decodeLoop (digits.map xlat ++ replicate pads 61) count x =
      decodeDigits digits count x := by
  induction digits generalizing count x with
  | nil =>
    cases pads with
    | zero => rfl
    | succ pads => simp [replicate_succ, decodeLoop, decodeDigits]
  | cons digit digits ih =>
    rw [forall_mem_cons] at hdigits
    rw [map_cons, cons_append, decodeLoop,
      if_neg (xlat_ne_pad hdigits.1), xlatIndex_xlat hdigits.1, decodeDigits]
    simp only [ih hdigits.2]

theorem shl_six_or {x digit : ℕ} (hdigit : digit < 64) :
    (x <<< 6) ||| digit = x * 64 + digit := by
  rw [← Nat.shiftLeft_add_eq_or_of_lt hdigit, Nat.shiftLeft_eq]

/-- A byte is found again among the bits of a number. -/
theorem ofNat_eq {x : ℕ} (byte : Byte) (hx : x % 256 = byte.toNat) :
    UInt8.ofNat x = byte := by
  apply UInt8.toNat_inj.1
  rw [UInt8.toNat_ofNat', hx]

theorem and_byte (x : ℕ) : x &&& 0xFF = x % 256 := by
  rw [show 0xFF = 2 ^ 8 - 1 from rfl, Nat.and_two_pow_sub_one_eq_mod]

theorem decodeDigits_group (a b c : Byte) (rest : List ℕ) :
    decodeDigits (a.toNat / 4 :: (a.toNat % 4 * 16 + b.toNat / 16) ::
      (b.toNat % 16 * 4 + c.toNat / 64) :: c.toNat % 64 :: rest) 0 0 =
        a :: b :: c :: decodeDigits rest 0 0 := by
  have ha := a.toNat_lt
  have hb := b.toNat_lt
  have hc := c.toNat_lt
  simp only [decodeDigits, Nat.reduceAdd, Nat.reduceEqDiff, if_false, if_true]
  rw [shl_six_or (by omega), shl_six_or (by omega), shl_six_or (by omega),
    shl_six_or (by omega), Nat.shiftRight_eq_div_pow, Nat.shiftRight_eq_div_pow,
    and_byte, and_byte, ofNat_eq a, ofNat_eq b, ofNat_eq c]
  · omega
  · omega
  · omega

theorem decodeDigits_two {first second : ℕ} (a : Byte)
    (hfirst : first = a.toNat / 4)
    (hsecond : second < 64 ∧ second / 16 = a.toNat % 4) :
    decodeDigits [first, second] 0 0 = [a] := by
  have ha := a.toNat_lt
  simp only [decodeDigits, decodeTail, Nat.reduceAdd, Nat.reduceEqDiff,
    if_false, if_true]
  rw [shl_six_or (by omega), shl_six_or (by omega),
    Nat.shiftRight_eq_div_pow, ofNat_eq a]
  omega

/-- Three digits hold two whole bytes. -/
theorem decodeDigits_three {third : ℕ} (a b : Byte)
    (hthird : third < 64 ∧ third / 4 = b.toNat % 16) :
    decodeDigits [a.toNat / 4, a.toNat % 4 * 16 + b.toNat / 16, third] 0 0 =
      [a, b] := by
  have ha := a.toNat_lt
  have hb := b.toNat_lt
  simp only [decodeDigits, decodeTail, Nat.reduceAdd, Nat.reduceEqDiff,
    if_false, if_true]
  rw [shl_six_or (by omega), shl_six_or (by omega), shl_six_or (by omega),
    Nat.shiftRight_eq_div_pow, Nat.shiftRight_eq_div_pow, and_byte,
    ofNat_eq a, ofNat_eq b]
  · omega
  · omega

/-- The first digits of a text decode to the bytes they hold as a whole. -/
theorem decodeDigits_take {text : Bytes} {count : ℕ}
    (hcount : count ≤ (packed text).length) :
    decodeDigits ((packed text).take count) 0 0 =
      text.take (count * 3 / 4) := by
  rw [length_packed] at hcount
  induction text using packed.induct generalizing count with
  | case1 a b c rest ih =>
    have hb := b.toNat_lt
    have hc := c.toNat_lt
    rw [packed]
    match count with
    | 0 => rfl
    | 1 => simp [decodeDigits, decodeTail]
    | 2 => exact decodeDigits_two a rfl (by omega)
    | 3 => exact decodeDigits_three a b (by omega)
    | count + 4 =>
      rw [length_cons, length_cons, length_cons] at hcount
      simp only [take_succ_cons]
      rw [decodeDigits_group, ih (by omega),
        show (count + 4) * 3 / 4 = count * 3 / 4 + 1 + 1 + 1 by omega]
      rfl
  | case2 a b =>
    have hb := b.toNat_lt
    rw [packed]
    match count with
    | 0 => rfl
    | 1 => simp [decodeDigits, decodeTail]
    | 2 => exact decodeDigits_two a rfl (by omega)
    | 3 => exact decodeDigits_three a b (by omega)
    | count + 4 =>
      rw [length_cons, length_singleton] at hcount
      omega
  | case3 a =>
    rw [packed]
    match count with
    | 0 => rfl
    | 1 => simp [decodeDigits, decodeTail]
    | 2 => exact decodeDigits_two a rfl (by omega)
    | count + 3 =>
      rw [length_singleton] at hcount
      omega
  | case4 => simp [packed, decodeDigits, decodeTail]

/-- The part of an encoded text that is cut off behind some digit. -/
theorem decodeLoop_take {text : Bytes} {count : ℕ}
    (hcount : count ≤ (packed text).length) (pads : ℕ) :
    decodeLoop (((packed text).take count).map xlat ++
      replicate pads 61) 0 0 = text.take (count * 3 / 4) := by
  rw [decodeLoop_digits, decodeDigits_take hcount]
  exact fun digit hdigit => lt_of_mem_packed digit (mem_of_mem_take hdigit)

/-- Decoding undoes encoding, with any number of `=` behind the digits. -/
theorem decodeLoop_packed (pads : ℕ) :
    decodeLoop ((packed text).map xlat ++ replicate pads 61) 0 0 = text := by
  have hwhole := decodeLoop_take (Nat.le_refl (packed text).length) pads
  rw [take_length, length_packed, take_of_length_le (by omega)] at hwhole
  exact hwhole

/-- Up to `INT_MAX` the decoder reads the whole text. -/
theorem base64Decode_eq {text : Bytes} (htext : text.length ≤ intMax) :
    base64Decode text = decodeLoop text 0 0 := by
  have hmax : intMax = 2 ^ 31 - 1 := rfl
  have hinlen : Int.bmod text.length (2 ^ 32) = text.length :=
    Int.bmod_eq_of_le (by omega) (by omega)
  rw [base64Decode, hinlen, Int.toNat_natCast, take_length]

/-! ## Noise -/

/-- A character that is neither a digit, nor `=`, nor NUL. -/
def isNoise (char : Byte) : Bool :=
  char ∉ base64Xlat && char ≠ 61 && char ≠ 0

theorem xlatIndex_eq_none {char : Byte} (hnoise : isNoise char = true) :
    xlatIndex char = none := by
  rw [isNoise, Bool.and_eq_true, Bool.and_eq_true, decide_eq_true_eq,
    decide_eq_true_eq, decide_eq_true_eq] at hnoise
  rw [xlatIndex, findIdx?_eq_none_iff]
  intro other hother
  rw [decide_eq_false_iff_not]
  rintro rfl
  rcases mem_append.mp hother with hdigit | hnul
  · exact hnoise.1.1 hdigit
  · exact hnoise.2 (mem_singleton.mp hnul)

theorem ne_pad_of_isNoise {char : Byte} (hnoise : isNoise char = true) :
    char ≠ 61 := by
  rintro rfl
  exact absurd hnoise (by decide)

/-- The decoder passes over noise. -/
theorem decodeLoop_filter (count x : ℕ) :
    decodeLoop (text.filter (!isNoise ·)) count x =
      decodeLoop text count x := by
  induction text generalizing count x with
  | nil => rfl
  | cons char text ih =>
    cases hnoise : isNoise char with
    | true =>
      rw [filter_cons_of_neg (by simp [hnoise]), ih, decodeLoop,
        if_neg (ne_pad_of_isNoise hnoise), xlatIndex_eq_none hnoise]
    | false =>
      rw [filter_cons_of_pos (by simp [hnoise]), decodeLoop, decodeLoop]
      simp only [ih]

/-- A text of a length that `base64_encoded_len` accepts is encoded in that
many characters, and comes back from them with any noise in between, as long as
an `int` can hold the length. -/
theorem base64Decode_noisy (text : Bytes) (hlength : text.length ≤ intMax - 2) :
    (base64Encode text).length = base64EncodedLen text.length ∧
      ∀ noisy : Bytes, noisy.length ≤ intMax →
        noisy.filter (!isNoise ·) = base64Encode text →
          base64Decode noisy = text := by
  constructor
  · rw [length_base64Encode, base64EncodedLen, if_neg (by omega)]
  · intro noisy hint hnoisy
    rw [base64Decode_eq hint, ← decodeLoop_filter, hnoisy, base64Encode_eq]
    exact decodeLoop_packed text (padding text)

theorem base64Decode_noisy_pair :
    (bytes "ab").length ≤ intMax - 2 ∧
      base64Decode (bytes "Y\nW I:=") = bytes "ab" :=
  ⟨by decide, (base64Decode_noisy (bytes "ab") (by decide)).2
    (bytes "Y\nW I:=") (by decide) (by decide)⟩

/-- The length function gives up two bytes before the end of `int`. -/
theorem length_base64Encode_ne :
    (base64Encode (replicate (intMax - 1) 0)).length ≠
      base64EncodedLen (replicate (intMax - 1) (0 : Byte)).length := by
  rw [length_base64Encode, length_replicate, base64EncodedLen]
  decide

/-! ## The room of the decoder -/

/-- The group at hand counts for the digits that it has taken so far. -/
theorem length_decodeLoop_le (text : Bytes) (count x : ℕ) :
    4 * (decodeLoop text count x).length ≤ 3 * (text.length + count) := by
  have htail (count x : ℕ) : 4 * (decodeTail count x).length ≤ 3 * count := by
    unfold decodeTail
    split
    · next hthree =>
      rw [hthree, length_cons, length_singleton]
      decide
    split
    · next htwo =>
      rw [htwo, length_singleton]
      decide
    · exact Nat.zero_le _
  induction text generalizing count x with
  | nil =>
    rw [decodeLoop, length_nil, Nat.zero_add]
    exact htail count x
  | cons char rest ih =>
    rw [decodeLoop, length_cons]
    split
    · have hpad := htail count x
      omega
    split
    · have hskip := ih count x
      omega
    dsimp only
    split
    · have hgroup := ih 0 0
      simp only [length_cons]
      omega
    · next index _ _ =>
      have hdigit := ih (count + 1) ((x <<< 6) ||| index)
      omega

/-- Up to the guard of `base64_decoded_len` its result is enough room. -/
theorem length_base64Decode_le (text : Bytes)
    (htext : text.length ≤ intMax - 3) :
    (base64Decode text).length ≤ base64DecodedLen text.length := by
  have hlength := length_decodeLoop_le text 0 0
  rw [base64DecodedLen, if_neg (Nat.not_lt.mpr htext),
    base64Decode_eq (htext.trans (Nat.sub_le _ _))]
  omega

theorem length_base64Decode_le_group : (bytes "QUJD").length ≤ intMax - 3 ∧
    (base64Decode (bytes "QUJD")).length ≤ base64DecodedLen 4 :=
  ⟨by decide, length_base64Decode_le (bytes "QUJD") (by decide)⟩

/-- Behind the guard there is no room at all. -/
theorem base64DecodedLen_lt_length :
    ∃ text : Bytes, text.length ≤ intMax ∧
      base64DecodedLen text.length < (base64Decode text).length := by
  have hgroup (rest : Bytes) :
      0 < (decodeLoop (65 :: 65 :: 65 :: 65 :: rest) 0 0).length := by
    have hindex : xlatIndex 65 = some 0 := by decide
    simp [decodeLoop, hindex]
  have hlength : (65 :: 65 :: 65 :: 65 ::
      replicate (intMax - 6) (65 : Byte)).length = intMax - 2 := by
    rw [length_cons, length_cons, length_cons, length_cons, length_replicate]
    decide
  have hint := hlength.trans_le (Nat.sub_le intMax 2)
  refine ⟨65 :: 65 :: 65 :: 65 :: replicate (intMax - 6) 65, hint, ?_⟩
  rw [base64Decode_eq hint, hlength, base64DecodedLen, if_pos (by decide)]
  exact hgroup _

end Tomato64.Base64
