import Tomato64.Core.Text
import Mathlib.Data.List.Forall2
import Mathlib.Tactic.Ring

/-!
# Reading numbers from text

The integer conversions of `sscanf` and `strtol` skip white space, accept a
sign, and take digits as long as the field width allows.  Base 16 also accepts
a `0x` in front of the digits, which counts towards the width.

`scanFields` is a format of several such conversions with one separator
between them.
-/

namespace Tomato64.Scan

open List Text

/-- `isspace` in the C locale. -/
def isSpace (char : Byte) : Bool :=
  (9 ≤ char && char ≤ 13) || char = 32

/-- The value of a digit, or a number that is too large for any base. -/
def digitValue (char : Byte) : ℕ :=
  if 48 ≤ char ∧ char ≤ 57 then char.toNat - 48
  else if 97 ≤ char ∧ char ≤ 102 then char.toNat - 87
  else if 65 ≤ char ∧ char ≤ 70 then char.toNat - 55
  else 255

variable (base : ℕ)

def isDigitOf (char : Byte) : Bool :=
  digitValue char < base

/-- The number a string of digits stands for. -/
def valueOf (digits : Bytes) : ℕ :=
  digits.foldl (fun value digit => base * value + digitValue digit) 0

/-- A sign, if there is one, and what follows. -/
def takeSign : Bytes → Bytes × Bytes
  | [] => ([], [])
  | char :: text =>
    if char = 43 ∨ char = 45 then ([char], text) else ([], char :: text)

def signed (sign : Bytes) (value : ℕ) : ℤ :=
  if sign = [45] then -value else value

def startsHexMark : Bytes → Bool
  | 48 :: char :: _ => char = 120 || char = 88
  | _ => false

/-- The length of the `0x` before the digits. -/
def markLength (body : Bytes) : ℕ :=
  if base = 16 ∧ startsHexMark body then 2 else 0

variable (width : ℕ)

/-- An integer conversion with a field width: the number and the text behind
it. -/
def scanNumber (input : Bytes) : Option (ℤ × Bytes) :=
  let text := input.dropWhile isSpace
  let (sign, body) := takeSign (text.take width)
  let mark := markLength base body
  let digits := (body.drop mark).takeWhile (isDigitOf base)
  if digits = [] then none
  else
    some (signed sign (valueOf base digits),
      text.drop (sign.length + mark + digits.length))

/-- The conversion to `unsigned int`. -/
def toUnsigned (value : ℤ) : ℕ :=
  (value % 2 ^ 32).toNat

/-- `more` further conversions behind the first one, each after a separator:
the numbers stored and the text behind the last. -/
def scanFields (base width : ℕ) (separator : Byte) :
    ℕ → Bytes → Option (List ℕ × Bytes)
  | 0, input =>
    (scanNumber base width input).map fun scanned =>
      ([toUnsigned scanned.1], scanned.2)
  | more + 1, input =>
    match scanNumber base width input with
    | some (value, char :: rest) =>
      if char = separator then
        (scanFields base width separator more rest).map fun scanned =>
          (toUnsigned value :: scanned.1, scanned.2)
      else none
    | _ => none

def longMin : ℤ := -2 ^ 63
def longMax : ℤ := 2 ^ 63 - 1

variable (input : Bytes)

/-- `strtol(input, &end, 10)`: the number and the text from `end` on, or
nothing when there are no digits. -/
def strtol : Option (ℤ × Bytes) :=
  (scanNumber 10 input.length input).map fun scanned =>
    (max longMin (min longMax scanned.1), scanned.2)

/-- `strtoul(input, NULL, 10)`, which negates in the arithmetic of its type. -/
def strtoul : UInt64 :=
  match scanNumber 10 input.length input with
  | some (number, _) =>
    if 2 ^ 64 ≤ number.natAbs then UInt64.ofNat (2 ^ 64 - 1)
    else UInt64.ofInt number
  | none => 0

/-- A `%s` conversion with a field width: the word and the text behind it. -/
def scanWord (input : Bytes) : Option (Bytes × Bytes) :=
  let text := input.dropWhile isSpace
  let word := (text.take width).takeWhile fun char => !isSpace char
  if word = [] then none else some (word, text.drop word.length)

/-- `atoi`: zero without digits, and the arithmetic of a 32 bit `int`. -/
def atoi : ℤ :=
  match scanNumber 10 input.length input with
  | some (number, _) => (BitVec.ofInt 32 number).toInt
  | none => 0

/-- A `%d` conversion: an `int` and the text behind it. -/
def scanInt : Option (ℤ × Bytes) :=
  (scanNumber 10 input.length input).map fun scanned =>
    ((BitVec.ofInt 32 scanned.1).toInt, scanned.2)

/-! ## Addresses -/

/-- The dotted part of `inet_pton`: `left` numbers of at most three digits
without leading zeros. -/
def inetPton4 : ℕ → Bytes → Bool
  | 0, _ => false
  | left + 1, text =>
    let digits := (text.take 3).takeWhile (isDigitOf 10)
    if digits = [] ∨ (1 < digits.length ∧ text.head? = some 48) ∨
        255 < valueOf 10 digits then false
    else
      match text.drop digits.length with
      | [] => left = 0
      | char :: rest => char = 46 && inetPton4 left rest

/-- The loop of `inet_pton(AF_INET6, ..)`: `left` groups may follow the one at
hand, and `gap` tells whether a `::` was seen. -/
def inetPton6Groups : ℕ → Bool → Bytes → Bool
  | left, gap, text =>
    if text.head? = some 58 ∧ gap = false then
      match left with
      | 0 => text.drop 1 = []
      | left + 1 => text.drop 1 = [] || inetPton6Groups left true (text.drop 1)
    else
      let digits := (text.take 4).takeWhile (isDigitOf 16)
      if digits = [] then false
      else
        match text.drop digits.length, left with
        | [], left => gap || left = 0
        | _ :: _, 0 => false
        | char :: rest, left + 1 =>
          if char = 58 then inetPton6Groups left gap rest
          else
            char = 46 && (left = 0 || gap) && inetPton4 4 text

/-- `inet_pton(AF_INET6, text, ..) == 1`. -/
def inetPton6 (text : Bytes) : Bool :=
  match text with
  | 58 :: rest => rest.head? = some 58 && inetPton6Groups 7 false rest
  | _ => inetPton6Groups 7 false text

/-! ## What a conversion accepts -/

theorem takeSign_append (text : Bytes) :
    (takeSign text).1 ++ (takeSign text).2 = text := by
  cases text with
  | nil => rfl
  | cons char text =>
    rw [takeSign]
    split <;> rfl

theorem takeSign_eq (text : Bytes) :
    (takeSign text).1 = [] ∨ (takeSign text).1 = [43] ∨
      (takeSign text).1 = [45] := by
  cases text with
  | nil => exact .inl rfl
  | cons char text =>
    rw [takeSign]
    split
    · next hchar => rcases hchar with rfl | rfl <;> simp
    · exact .inl rfl

/-- The shape of a number that a conversion has read from `input`. -/
structure IsNumber (base width : ℕ) (input : Bytes) (value : ℤ)
    (rest spaces sign digits : Bytes) : Prop where
  input_eq : input = spaces ++ (sign ++ (digits ++ rest))
  spaces_space : ∀ char ∈ spaces, isSpace char = true
  sign_eq : sign = [] ∨ sign = [43] ∨ sign = [45]
  digits_ne : digits ≠ []
  digits_digit : ∀ char ∈ digits, isDigitOf base char = true
  value_eq : value = signed sign (valueOf base digits)
  width_le : sign.length + digits.length ≤ width
  maximal : sign.length + digits.length = width ∨
    ∀ char, rest.head? = some char → isDigitOf base char = false

/-- A field of at most two characters has no room for a `0x` and a digit. -/
theorem markLength_eq_zero {base width : ℕ} {text : Bytes}
    (hwidth : base ≠ 16 ∨ width ≤ 2)
    (hdigits : ((takeSign (text.take width)).2.drop
      (markLength base (takeSign (text.take width)).2)).takeWhile
        (isDigitOf base) ≠ []) :
    markLength base (takeSign (text.take width)).2 = 0 := by
  rw [markLength] at hdigits ⊢
  split at hdigits
  swap
  · next hmark => exact if_neg hmark
  next hmark =>
  have hlength := congrArg List.length (takeSign_append (text.take width))
  rw [length_append, length_take] at hlength
  have hshort : (takeSign (text.take width)).2.length ≤ 2 := by
    rcases hwidth with hbase | hwidth
    · exact absurd hmark.1 hbase
    · omega
  rw [drop_eq_nil_of_le hshort] at hdigits
  exact absurd rfl hdigits

/-- A conversion reads white space, a sign and as many digits as the width
allows. -/
theorem scanNumber_eq_some {base width : ℕ} {input rest : Bytes} {value : ℤ}
    (hwidth : base ≠ 16 ∨ width ≤ 2)
    (hscan : scanNumber base width input = some (value, rest)) :
    ∃ spaces sign digits,
      IsNumber base width input value rest spaces sign digits := by
  rw [scanNumber] at hscan
  simp only at hscan
  split at hscan
  · cases hscan
  next hdigits =>
  rw [markLength_eq_zero hwidth hdigits] at hscan hdigits
  rw [drop_zero] at hscan hdigits
  set text := input.dropWhile isSpace with htext
  set sign := (takeSign (text.take width)).1 with hsign
  set body := (takeSign (text.take width)).2 with hbody
  set digits := body.takeWhile (isDigitOf base) with hdigitsEq
  rw [Option.some.injEq, Prod.mk.injEq] at hscan
  obtain ⟨rfl, rfl⟩ := hscan
  have hwindow : sign ++ body = text.take width := takeSign_append _
  have hsplit : digits ++ body.dropWhile (isDigitOf base) = body :=
    takeWhile_append_dropWhile
  have htextEq : text = sign ++ (digits ++
      (body.dropWhile (isDigitOf base) ++ text.drop width)) := by
    rw [← append_assoc digits, hsplit, ← append_assoc, hwindow,
      take_append_drop]
  have hrest : text.drop (sign.length + 0 + digits.length) =
      body.dropWhile (isDigitOf base) ++ text.drop width := by
    rw [Nat.add_zero, ← drop_drop]
    nth_rewrite 1 [htextEq]
    rw [drop_left, drop_left]
  have hlengths := congrArg List.length hwindow
  have hbodyLength := congrArg List.length hsplit
  rw [length_append] at hbodyLength
  rw [length_append, length_take] at hlengths
  refine ⟨input.takeWhile isSpace, sign, digits, ?_, ?_, takeSign_eq _,
    hdigits, ?_, rfl, by omega, ?_⟩
  · rw [hrest, ← htextEq, htext, takeWhile_append_dropWhile]
  · exact fun char hchar => mem_takeWhile_imp hchar
  · exact fun char hchar => mem_takeWhile_imp hchar
  rw [hrest]
  cases hbehind : body.dropWhile (isDigitOf base) with
  | nil =>
    rw [hbehind, length_nil] at hbodyLength
    by_cases hfull : sign.length + digits.length = width
    · exact .inl hfull
    · right
      rw [drop_eq_nil_of_le (by omega)]
      simp
  | cons next tail =>
    right
    intro char hchar
    rw [cons_append, head?_cons, Option.some.injEq] at hchar
    subst hchar
    have hstop := head?_dropWhile_not (isDigitOf base) body
    simpa [hbehind] using hstop

variable {char : Byte}

/-- A digit is no white space and no punctuation. -/
theorem toNat_of_isDigitOf (hdigit : isDigitOf 16 char = true) :
    48 ≤ char.toNat ∧ char.toNat ≠ 58 ∧ char.toNat ≤ 102 := by
  simp only [isDigitOf, digitValue, decide_eq_true_eq, UInt8.le_iff_toNat_le,
    UInt8.reduceToNat] at hdigit
  split at hdigit
  · omega
  split at hdigit
  · omega
  split at hdigit
  · omega
  · omega

theorem isDigitOf_mono (hdigit : isDigitOf 10 char = true) :
    isDigitOf 16 char = true := by
  simp only [isDigitOf, decide_eq_true_eq] at hdigit ⊢
  omega

theorem isSpace_eq_false (hchar : 33 ≤ char.toNat) : isSpace char = false := by
  simp only [isSpace, Bool.or_eq_false_iff, Bool.and_eq_false_iff,
    decide_eq_false_iff_not, UInt8.le_iff_toNat_le, UInt8.reduceToNat]
  refine ⟨.inr (by omega), ?_⟩
  rintro rfl
  simp at hchar

/-- Digits are read up to the first character that is none. -/
theorem scanNumber_digits {width : ℕ} {digits rest : Bytes}
    (hne : digits ≠ []) (hdigits : ∀ char ∈ digits, isDigitOf 10 char = true)
    (hrest : ∀ char, rest.head? = some char → isDigitOf 10 char = false)
    (hwidth : (digits ++ rest).length ≤ width) :
    scanNumber 10 width (digits ++ rest) =
      some ((valueOf 10 digits : ℤ), rest) := by
  obtain ⟨first, others, rfl⟩ := exists_cons_of_ne_nil hne
  have hfirst : isDigitOf 10 first = true := hdigits first mem_cons_self
  have hhigh := (toNat_of_isDigitOf (isDigitOf_mono hfirst)).1
  have hplain : isSpace first = false ∧ ¬ (first = 43 ∨ first = 45) := by
    refine ⟨isSpace_eq_false (by omega), ?_⟩
    rintro (rfl | rfl) <;> simp at hhigh
  have htake : (first :: others ++ rest).takeWhile (isDigitOf 10) =
      first :: others := by
    rw [takeWhile_append_of_pos hdigits]
    cases rest with
    | nil => simp
    | cons char rest => simp [hrest char rfl]
  have hspaces : (first :: others ++ rest).dropWhile isSpace =
      first :: others ++ rest := by
    simp [hplain.1]
  have hsign : takeSign (first :: others ++ rest) =
      ([], first :: others ++ rest) := by
    rw [cons_append, takeSign, if_neg hplain.2]
  have hmark : markLength 10 (first :: others ++ rest) = 0 := by
    simp [markLength]
  simp only [scanNumber, hspaces, take_of_length_le hwidth, hsign, hmark,
    drop_zero, htake, length_nil, Nat.zero_add]
  simp [signed]

theorem isDigitOf_ten (char : Byte) : isDigitOf 10 char = isDigit char := by
  rw [Bool.eq_iff_iff]
  simp only [isDigitOf, digitValue, isDigit, decide_eq_true_eq,
    Bool.and_eq_true, UInt8.le_iff_toNat_le, UInt8.reduceToNat]
  split
  · omega
  · split
    · omega
    · split <;> omega

theorem valueOf_append_singleton (digits : Bytes) (digit : Byte) :
    valueOf base (digits ++ [digit]) =
      base * valueOf base digits + digitValue digit := by
  rw [valueOf, foldl_append]
  rfl

theorem valueOf_decimal (number : ℕ) : valueOf 10 (decimal number) = number := by
  have hdigit : ∀ value < 10, digitValue (digitChar value) = value := by decide
  induction number using decimal.induct with
  | case1 number hsmall =>
    rw [decimal, if_pos hsmall, ← nil_append [digitChar number],
      valueOf_append_singleton, hdigit number hsmall]
    simp [valueOf]
  | case2 number hlarge ih =>
    rw [decimal, if_neg hlarge, valueOf_append_singleton, ih,
      hdigit _ (Nat.mod_lt number (by decide))]
    omega

theorem decimal_injective : Function.Injective decimal :=
  Function.LeftInverse.injective valueOf_decimal

/-- A number is read back from the front of a text that goes on without a
digit. -/
theorem decimal_append_inj {left right : ℕ} {leftRest rightRest : Bytes}
    (hleft : ∀ char, leftRest.head? = some char → isDigit char = false)
    (hright : ∀ char, rightRest.head? = some char → isDigit char = false)
    (heq : decimal left ++ leftRest = decimal right ++ rightRest) :
    left = right ∧ leftRest = rightRest := by
  obtain ⟨hltake, hldrop⟩ :=
    takeWhile_digits (isDigit_of_mem_decimal left) hleft
  obtain ⟨hrtake, hrdrop⟩ :=
    takeWhile_digits (isDigit_of_mem_decimal right) hright
  rw [heq] at hltake hldrop
  exact ⟨decimal_injective (hltake.symm.trans hrtake), hldrop.symm.trans hrdrop⟩

/-- White space before a number is skipped. -/
theorem scanInt_cons_space (hspace : isSpace char = true)
    (input : Bytes) : scanInt (char :: input) = scanInt input := by
  have hlength : (input.dropWhile isSpace).length ≤ input.length :=
    (dropWhile_sublist _).length_le
  have hdrop : (char :: input).dropWhile isSpace = input.dropWhile isSpace :=
    dropWhile_cons_of_pos hspace
  have hlonger : (input.dropWhile isSpace).length ≤ (char :: input).length :=
    hlength.trans (Nat.le_succ _)
  unfold scanInt scanNumber
  simp only [hdrop, take_of_length_le hlength, take_of_length_le hlonger]

/-- A number that was printed is read back. -/
theorem scanInt_decimal {number : ℕ} (hnumber : number < 2 ^ 31) {rest : Bytes}
    (hrest : ∀ char, rest.head? = some char → isDigitOf 10 char = false) :
    scanInt (decimal number ++ rest) = some ((number : ℤ), rest) := by
  obtain ⟨first, others, hdecimal, -⟩ := exists_decimal_eq_cons number
  have hne : decimal number ≠ [] := by
    rw [hdecimal]
    exact cons_ne_nil _ _
  have hint : (BitVec.ofInt 32 (number : ℤ)).toInt = number := by
    rw [BitVec.toInt_ofInt]
    exact Int.bmod_eq_of_le (by omega) (by omega)
  rw [scanInt, scanNumber_digits hne (fun char hchar =>
    (isDigitOf_ten char).trans (isDigit_of_mem_decimal number char hchar)) hrest
    le_rfl, valueOf_decimal, Option.map_some, hint]

/-! ## Fields between separators -/

/-- A text that a conversion reads as a whole. -/
def IsField (field : Bytes) (value : ℕ) : Prop :=
  ∃ number spaces sign digits,
    IsNumber base width field number [] spaces sign digits ∧
      value = toUnsigned number

/-- The conversion stopped before `rest` because the field was full or no
digit followed. -/
def StopsBefore (field rest : Bytes) : Prop :=
  width ≤ field.length ∨
    ∀ char, rest.head? = some char → isDigitOf base char = false

theorem exists_field_of_scanNumber {base width : ℕ} {input rest : Bytes}
    {value : ℤ} (hwidth : base ≠ 16 ∨ width ≤ 2)
    (hscan : scanNumber base width input = some (value, rest)) :
    ∃ field, input = field ++ rest ∧
      IsField base width field (toUnsigned value) ∧
      StopsBefore base width field rest := by
  obtain ⟨spaces, sign, digits, hnumber⟩ := scanNumber_eq_some hwidth hscan
  refine ⟨spaces ++ (sign ++ digits), ?_, ?_, ?_⟩
  · rw [hnumber.input_eq]
    simp
  · refine ⟨value, spaces, sign, digits, ?_, rfl⟩
    exact { hnumber with
      input_eq := by simp
      maximal := .inr (by simp) }
  · rcases hnumber.maximal with hfull | hstops
    · left
      simp only [length_append]
      omega
    · exact .inr hstops

/-- What the fields look like that a whole format has read. -/
theorem scanFields_eq_some {base width more : ℕ} {separator : Byte}
    {input rest : Bytes} {values : List ℕ} (hwidth : base ≠ 16 ∨ width ≤ 2)
    (hscan : scanFields base width separator more input =
      some (values, rest)) :
    ∃ fields last, fields.length = more ∧
      input = [separator].intercalate (fields ++ [last]) ++ rest ∧
      Forall₂ (IsField base width) (fields ++ [last]) values ∧
      StopsBefore base width last rest := by
  induction more generalizing input values with
  | zero =>
    rw [scanFields, Option.map_eq_some_iff] at hscan
    obtain ⟨⟨value, behind⟩, hnumber, hsame⟩ := hscan
    rw [Prod.mk.injEq] at hsame
    obtain ⟨rfl, rfl⟩ := hsame
    obtain ⟨field, hinput, hfield, hstops⟩ :=
      exists_field_of_scanNumber hwidth hnumber
    exact ⟨[], field, rfl, by simp [hinput], .cons hfield .nil, hstops⟩
  | succ more ih =>
    rw [scanFields] at hscan
    split at hscan
    swap
    · cases hscan
    next value char behind hnumber =>
    split at hscan
    swap
    · cases hscan
    next hchar =>
    subst hchar
    rw [Option.map_eq_some_iff] at hscan
    obtain ⟨⟨others, tail⟩, hothers, hsame⟩ := hscan
    rw [Prod.mk.injEq] at hsame
    obtain ⟨rfl, rfl⟩ := hsame
    obtain ⟨field, hinput, hfield, _⟩ :=
      exists_field_of_scanNumber hwidth hnumber
    obtain ⟨fields, last, hlength, hbehind, hfields, hstops⟩ := ih hothers
    refine ⟨field :: fields, last, by simp [hlength], ?_,
      .cons hfield hfields, hstops⟩
    have hnonempty : fields ++ [last] ≠ [] := by simp
    rw [hinput, hbehind, cons_append]
    obtain ⟨head, tail, hlist⟩ := exists_cons_of_ne_nil hnonempty
    rw [hlist, intercalate_cons_cons]
    simp

/-- A field without white space and signs is a string of digits. -/
theorem IsField.digits {base width value : ℕ} {field : Bytes}
    (hfield : IsField base width field value)
    (hplain : ∀ char ∈ field, isSpace char = false ∧ char ≠ 43 ∧ char ≠ 45) :
    field ≠ [] ∧ (∀ char ∈ field, isDigitOf base char = true) ∧
      field.length ≤ width ∧ value = toUnsigned (valueOf base field) := by
  obtain ⟨number, spaces, sign, digits, hnumber, rfl⟩ := hfield
  have hinput := hnumber.input_eq
  have hspaces : spaces = [] := by
    refine eq_nil_iff_forall_not_mem.2 fun char hchar => ?_
    have hspace := hnumber.spaces_space char hchar
    rw [(hplain char (hinput ▸ mem_append_left _ hchar)).1] at hspace
    cases hspace
  have hsign : sign = [] := by
    rcases hnumber.sign_eq with hsign | hsign | hsign
    · exact hsign
    · have hmem : (43 : Byte) ∈ field := by
        rw [hinput, hsign]
        simp
      exact absurd rfl (hplain 43 hmem).2.1
    · have hmem : (45 : Byte) ∈ field := by
        rw [hinput, hsign]
        simp
      exact absurd rfl (hplain 45 hmem).2.2
  subst hspaces hsign
  rw [nil_append, nil_append, append_nil] at hinput
  subst hinput
  refine ⟨hnumber.digits_ne, hnumber.digits_digit, ?_, ?_⟩
  · simpa using hnumber.width_le
  · rw [hnumber.value_eq]
    rfl

/-- A string of digits is smaller than the power of its length. -/
theorem valueOf_lt {base : ℕ} {digits : Bytes}
    (hdigits : ∀ char ∈ digits, isDigitOf base char = true) :
    valueOf base digits < base ^ digits.length := by
  induction digits using reverseRecOn with
  | nil => simp [valueOf]
  | append_singleton digits digit ih =>
    rw [forall_mem_append, forall_mem_singleton] at hdigits
    have hdigit : digitValue digit < base := by
      simpa [isDigitOf] using hdigits.2
    rw [valueOf_append_singleton, length_append, length_singleton]
    calc base * valueOf base digits + digitValue digit
        < base * valueOf base digits + base := by omega
      _ = base * (valueOf base digits + 1) := by ring
      _ ≤ base * base ^ digits.length := Nat.mul_le_mul_left base (ih hdigits.1)
      _ = base ^ (digits.length + 1) := by ring

end Tomato64.Scan
