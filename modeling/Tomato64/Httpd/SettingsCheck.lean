import Tomato64.Core.Scan
import Tomato64.Core.Split
import Mathlib.Data.List.DropRight

/-!
# Checking a posted setting

Every variable that the settings page may write is declared with a type.
`webcgi_nvram_set` checks the posted text against it.  The conversions it uses
accept more than the types promise: `sscanf` skips white space and takes signs,
`strtol` skips white space, and the format of a hardware address ends without a
test for further characters.
-/

namespace Tomato64.SettingsCheck

open List Scan Split Text

/-- The bounds of an integer variable.  They are `long` values strictly inside
the range of that type. -/
structure LongRange where
  min : ℤ
  max : ℤ
  inside : longMin < min ∧ max < longMax

/-- The types of `nvset_t` with the arguments they use. -/
inductive VType
  | none
  | length (min max : ℤ)
  | text (min max : ℤ)
  | range (bounds : LongRange)
  | ip (required : Bool)
  | mac
  | ipv6 (required : Bool)
  | temp

/-- `unix_string`: the text without carriage returns. -/
def unixString (text : Bytes) : Bytes :=
  text.filter (· ≠ 13)

/-- The text that is checked and stored. -/
def normalise : VType → Bytes → Bytes
  | .text _ _, value => unixString value
  | _, value => value

def lengthOk (min max : ℤ) (value : Bytes) : Bool :=
  !((value.length : ℤ) < min || (value.length : ℤ) > max)

def rangeOk (bounds : LongRange) (value : Bytes) : Bool :=
  match strtol value with
  | some (number, []) => !(number < bounds.min || number > bounds.max)
  | _ => false

def ipOk (value : Bytes) : Bool :=
  match scanFields 10 3 46 3 value with
  | some (numbers, []) => numbers.all (· ≤ 255)
  | _ => false

def macOk (value : Bytes) : Bool :=
  match scanFields 16 2 58 5 value with
  | some (numbers, _) => numbers.all (· ≤ 255)
  | none => false

/-- The verdict of the `switch` on the normalised text. -/
def valueOk : VType → Bytes → Bool
  | .none, _ => true
  | .length min max, value => lengthOk min max value
  | .text min max, value => lengthOk min max value
  | .range bounds, value => rangeOk bounds value
  | .ip required, value =>
    if 0 < value.length ∨ required then ipOk value else true
  | .mac, value => macOk value
  | .ipv6 required, value =>
    if 0 < value.length ∨ required then inetPton6 value else true
  | .temp, _ => true

/-! ## What the types promise -/

/-- A decimal number from 0 to 255. -/
def IsOctet (part : Bytes) : Prop :=
  part ≠ [] ∧ (∀ char ∈ part, isDigitOf 10 char = true) ∧
    valueOf 10 part ≤ 255

/-- One or two hexadecimal digits. -/
def IsHexByte (part : Bytes) : Prop :=
  part ≠ [] ∧ (∀ char ∈ part, isDigitOf 16 char = true) ∧ part.length ≤ 2

def IsDecimal (value : Bytes) (number : ℤ) : Prop :=
  ∃ sign digits, value = sign ++ digits ∧
    (sign = [] ∨ sign = [43] ∨ sign = [45]) ∧ digits ≠ [] ∧
    (∀ char ∈ digits, isDigitOf 10 char = true) ∧
    number = signed sign (valueOf 10 digits)

/-- The values that a declaration of the four checked types stands for. -/
def WellTyped : VType → Bytes → Prop
  | .ip required, value =>
    (value = [] ∧ required = false) ∨
      ∃ parts : List Bytes, parts.length = 4 ∧
        value = [46].intercalate parts ∧ ∀ part ∈ parts, IsOctet part
  | .mac, value =>
    ∃ parts : List Bytes, parts.length = 6 ∧
      value = [58].intercalate parts ∧ ∀ part ∈ parts, IsHexByte part
  | .range bounds, value =>
    ∃ number, IsDecimal value number ∧ bounds.min ≤ number ∧
      number ≤ bounds.max
  | .length min max, value => min ≤ value.length ∧ value.length ≤ max
  | _, _ => True

/-- The texts on which the conversions read no more than the types allow. -/
def Strict : VType → Bytes → Prop
  | .ip _, value => ∀ char ∈ value, isDigitOf 10 char = true ∨ char = 46
  | .mac, value =>
    (∀ char ∈ value, isDigitOf 16 char = true ∨ char = 58) ∧
      value.count 58 = 5 ∧ (value.rtakeWhile (· ≠ 58)).length ≤ 2
  | .range _, value => ∀ char, value.head? = some char → isSpace char = false
  | _, _ => True

/-! ## Plain characters -/

theorem isSpace_of_isDigitOf {char : Byte} (hdigit : isDigitOf 16 char = true) :
    isSpace char = false := by
  have hbounds := toNat_of_isDigitOf hdigit
  exact isSpace_eq_false (by omega)

theorem ne_of_isDigitOf {char other : Byte} (hdigit : isDigitOf 16 char = true)
    (hother : other.toNat < 48 ∨ other.toNat = 58) : char ≠ other := by
  rintro rfl
  have hbounds := toNat_of_isDigitOf hdigit
  omega

/-- Digits, dots and colons are neither white space nor signs. -/
theorem plain_of_digit_or_separator {char separator : Byte}
    (hseparator : separator = 46 ∨ separator = 58)
    (hchar : isDigitOf 16 char = true ∨ char = separator) :
    isSpace char = false ∧ char ≠ 43 ∧ char ≠ 45 := by
  rcases hchar with hdigit | rfl
  · exact ⟨isSpace_of_isDigitOf hdigit,
      ne_of_isDigitOf hdigit (.inl (by decide)),
      ne_of_isDigitOf hdigit (.inl (by decide))⟩
  · rcases hseparator with rfl | rfl <;> decide

/-- Every field that was read from plain text is a string of digits. -/
theorem digits_of_fields {base width : ℕ} {separator : Byte}
    {fields : List Bytes} {last rest : Bytes} {numbers : List ℕ}
    (hfields : Forall₂ (IsField base width) (fields ++ [last]) numbers)
    (hplain : ∀ char ∈ [separator].intercalate (fields ++ [last]) ++ rest,
      isSpace char = false ∧ char ≠ 43 ∧ char ≠ 45) :
    ∀ field ∈ fields ++ [last], ∃ number ∈ numbers,
      field ≠ [] ∧ (∀ char ∈ field, isDigitOf base char = true) ∧
        field.length ≤ width ∧ number = toUnsigned (valueOf base field) := by
  intro field hfield
  obtain ⟨number, hnumber, hread⟩ := exists_mem_of_forall₂ hfields hfield
  refine ⟨number, hnumber, hread.digits fun char hchar => hplain char ?_⟩
  exact mem_append_left _ (mem_intercalate.2 (.inl ⟨field, hfield, hchar⟩))

/-! ## Internet addresses -/

variable {value : Bytes}

theorem ipOk_eq_true (hok : ipOk value = true) :
    ∃ fields last numbers, fields.length = 3 ∧
      value = [46].intercalate (fields ++ [last]) ∧
      Forall₂ (IsField 10 3) (fields ++ [last]) numbers ∧
      ∀ number ∈ numbers, number ≤ 255 := by
  rw [ipOk] at hok
  split at hok
  · next numbers hscan =>
    obtain ⟨fields, last, hlength, hvalue, hfields, _⟩ :=
      scanFields_eq_some (.inl (by decide)) hscan
    rw [append_nil] at hvalue
    exact ⟨fields, last, numbers, hlength, hvalue, hfields, by simpa using hok⟩
  · cases hok

theorem isOctet_of_scanned {field : Bytes} {number : ℕ} (hnonempty : field ≠ [])
    (hdigits : ∀ char ∈ field, isDigitOf 10 char = true)
    (hlength : field.length ≤ 3)
    (hnumber : number = toUnsigned (valueOf 10 field))
    (hsmall : number ≤ 255) : IsOctet field := by
  have hvalue : valueOf 10 field < 10 ^ 3 :=
    (valueOf_lt hdigits).trans_le (Nat.pow_le_pow_right (by decide) hlength)
  refine ⟨hnonempty, hdigits, ?_⟩
  rw [toUnsigned] at hnumber
  omega

theorem ip_iff (hok : ipOk value = true) :
    (∃ parts : List Bytes, parts.length = 4 ∧
      value = [46].intercalate parts ∧ ∀ part ∈ parts, IsOctet part) ↔
      ∀ char ∈ value, isDigitOf 10 char = true ∨ char = 46 := by
  constructor
  · rintro ⟨parts, hlength, rfl, hparts⟩ char hchar
    rcases mem_intercalate.1 hchar with ⟨part, hpart, hmem⟩ | ⟨hdot, _⟩
    · exact .inl ((hparts part hpart).2.1 char hmem)
    · exact .inr hdot
  intro hplain
  obtain ⟨fields, last, numbers, hlength, hvalue, hfields, hsmall⟩ :=
    ipOk_eq_true hok
  refine ⟨fields ++ [last], by simp [hlength], hvalue, ?_⟩
  intro field hfield
  have hchars : ∀ char ∈ [46].intercalate (fields ++ [last]) ++ [],
      isSpace char = false ∧ char ≠ 43 ∧ char ≠ 45 := by
    intro char hchar
    rw [append_nil, ← hvalue] at hchar
    exact plain_of_digit_or_separator (.inl rfl)
      ((hplain char hchar).imp_left isDigitOf_mono)
  obtain ⟨number, hnumber, hnonempty, hdigits, hwidth, hread⟩ :=
    digits_of_fields hfields hchars field hfield
  exact isOctet_of_scanned hnonempty hdigits hwidth hread
    (hsmall number hnumber)

/-! ## Hardware addresses -/

theorem macOk_eq_true (hok : macOk value = true) :
    ∃ fields last rest numbers, fields.length = 5 ∧
      value = [58].intercalate (fields ++ [last]) ++ rest ∧
      Forall₂ (IsField 16 2) (fields ++ [last]) numbers ∧
      StopsBefore 16 2 last rest := by
  rw [macOk] at hok
  split at hok
  · next numbers rest hscan =>
    obtain ⟨fields, last, hlength, hvalue, hfields, hstops⟩ :=
      scanFields_eq_some (.inr (by decide)) hscan
    exact ⟨fields, last, rest, numbers, hlength, hvalue, hfields, hstops⟩
  · cases hok

theorem not_mem_of_digits {part : Bytes}
    (hpart : ∀ char ∈ part, isDigitOf 16 char = true) : 58 ∉ part :=
  fun hmem => ne_of_isDigitOf (hpart 58 hmem) (.inr rfl) rfl

/-- The text behind the last colon. -/
theorem rtakeWhile_of_not_mem {front back : Bytes} (hback : 58 ∉ back) :
    (front ++ 58 :: back).rtakeWhile (· ≠ 58) = back := by
  have hall : ∀ char ∈ back.reverse, decide (char ≠ 58) = true := by
    intro char hchar
    rw [decide_eq_true_eq]
    rintro rfl
    exact hback (mem_reverse.1 hchar)
  rw [rtakeWhile, reverse_append, reverse_cons,
    append_assoc, takeWhile_append_of_pos hall]
  simp

theorem strict_of_hexBytes {parts : List Bytes} (hlength : parts.length = 6)
    (hparts : ∀ part ∈ parts, IsHexByte part) :
    Strict .mac ([58].intercalate parts) := by
  have hne : parts ≠ [] := ne_nil_of_length_pos (by omega)
  obtain ⟨fields, last, rfl⟩ : ∃ fields last, parts = fields ++ [last] :=
    ⟨_, _, (dropLast_append_getLast hne).symm⟩
  rw [length_append, length_singleton] at hlength
  have hfields : fields ≠ [] := ne_nil_of_length_pos (by omega)
  have hcolon : ∀ part ∈ fields ++ [last], 58 ∉ part :=
    fun part hpart => not_mem_of_digits (hparts part hpart).2.1
  refine ⟨?_, ?_, ?_⟩
  · intro char hchar
    rcases mem_intercalate.1 hchar with ⟨part, hpart, hmem⟩ | ⟨hcolon, _⟩
    · exact .inl ((hparts part hpart).2.1 char hmem)
    · exact .inr hcolon
  · rw [count_intercalate hcolon]
    omega
  · obtain ⟨front, hfront⟩ := exists_intercalate_eq 58 last hfields
    rw [hfront, rtakeWhile_of_not_mem (hcolon last (by simp))]
    exact (hparts last (by simp)).2.2

/-- Without a sixth colon and with at most two digits behind the fifth,
nothing is left behind the last field. -/
theorem rest_eq_nil {fields : List Bytes} {last rest : Bytes}
    (hlength : fields.length = 5) (hdigits : ∀ field ∈ fields ++ [last],
      ∀ char ∈ field, isDigitOf 16 char = true)
    (hstops : StopsBefore 16 2 last rest)
    (hstrict : Strict .mac ([58].intercalate (fields ++ [last]) ++ rest)) :
    rest = [] := by
  obtain ⟨hchars, hcount, hshort⟩ := hstrict
  have hcolon : 58 ∉ rest := by
    rw [count_append, count_intercalate fun field hfield =>
      not_mem_of_digits (hdigits field hfield), hlength] at hcount
    exact count_eq_zero.1 (by omega)
  have hfields : fields ≠ [] := ne_nil_of_length_pos (by omega)
  obtain ⟨front, hfront⟩ := exists_intercalate_eq 58 last hfields
  have hlast : 58 ∉ last ++ rest := by
    rw [mem_append, not_or]
    exact ⟨not_mem_of_digits (hdigits last (by simp)), hcolon⟩
  rw [hfront, append_assoc, cons_append,
    rtakeWhile_of_not_mem hlast, length_append] at hshort
  cases rest with
  | nil => rfl
  | cons char rest =>
    rw [length_cons] at hshort
    rcases hstops with hfull | hstops
    · omega
    · rcases hchars char (by simp) with hdigit | rfl
      · rw [hstops char rfl] at hdigit
        cases hdigit
      · exact absurd mem_cons_self hcolon

theorem mac_iff (hok : macOk value = true) :
    WellTyped .mac value ↔ Strict .mac value := by
  constructor
  · rintro ⟨parts, hlength, rfl, hparts⟩
    exact strict_of_hexBytes hlength hparts
  intro hstrict
  obtain ⟨fields, last, rest, numbers, hlength, rfl, hfields, hstops⟩ :=
    macOk_eq_true hok
  have hread := digits_of_fields hfields fun char hchar =>
    plain_of_digit_or_separator (.inr rfl) (hstrict.1 char hchar)
  have hhex : ∀ field ∈ fields ++ [last], IsHexByte field := by
    intro field hfield
    obtain ⟨_, _, hnonempty, hdigits, hwidth, _⟩ := hread field hfield
    exact ⟨hnonempty, hdigits, hwidth⟩
  have hrest := rest_eq_nil hlength (fun field hfield => (hhex field hfield).2.1)
    hstops hstrict
  exact ⟨fields ++ [last], by simp [hlength], by rw [hrest, append_nil], hhex⟩

/-! ## Numbers -/

theorem rangeOk_eq_true {bounds : LongRange}
    (hok : rangeOk bounds value = true) :
    ∃ number spaces sign digits,
      IsNumber 10 value.length value number [] spaces sign digits ∧
        bounds.min ≤ number ∧ number ≤ bounds.max := by
  rw [rangeOk] at hok
  split at hok
  swap
  · cases hok
  next clamped hstrtol =>
  rw [strtol, Option.map_eq_some_iff] at hstrtol
  obtain ⟨⟨number, rest⟩, hscan, hsame⟩ := hstrtol
  rw [Prod.mk.injEq] at hsame
  obtain ⟨rfl, rfl⟩ := hsame
  obtain ⟨spaces, sign, digits, hnumber⟩ :=
    scanNumber_eq_some (.inl (by decide)) hscan
  -- the bounds lie inside `long`, so a clamped number is out of range
  have hinside := bounds.inside
  simp only [Bool.not_eq_true', Bool.or_eq_false_iff,
    decide_eq_false_iff_not] at hok
  exact ⟨number, spaces, sign, digits, hnumber, by omega, by omega⟩

theorem range_iff {bounds : LongRange} (hok : rangeOk bounds value = true) :
    WellTyped (.range bounds) value ↔ Strict (.range bounds) value := by
  constructor
  · rintro ⟨number, ⟨sign, digits, rfl, hsign, hnonempty, hdigits, _⟩, _⟩ char
    obtain ⟨first, others, rfl⟩ := exists_cons_of_ne_nil hnonempty
    rcases hsign with rfl | rfl | rfl
    · rw [nil_append, head?_cons, Option.some.injEq]
      rintro rfl
      exact isSpace_of_isDigitOf
        (isDigitOf_mono (hdigits _ mem_cons_self))
    · rintro ⟨⟩
      decide
    · rintro ⟨⟩
      decide
  · intro hstrict
    obtain ⟨number, spaces, sign, digits, hnumber, hmin, hmax⟩ :=
      rangeOk_eq_true hok
    have hspaces : spaces = [] := by
      cases spaces with
      | nil => rfl
      | cons char spaces =>
        have hspace := hnumber.spaces_space char mem_cons_self
        rw [hstrict char (by rw [hnumber.input_eq]; rfl)] at hspace
        cases hspace
    have hvalue := hnumber.input_eq
    rw [hspaces, nil_append, append_nil] at hvalue
    exact ⟨number, ⟨sign, digits, hvalue, hnumber.sign_eq, hnumber.digits_ne,
      hnumber.digits_digit, hnumber.value_eq⟩, hmin, hmax⟩

/-- An accepted text is of its type exactly when the conversions had nothing
to skip in it. -/
theorem wellTyped_iff_strict {vtype : VType}
    (hok : valueOk vtype value = true) :
    WellTyped vtype value ↔ Strict vtype value := by
  cases vtype with
  | ip required =>
    rw [valueOk] at hok
    split at hok
    · next hchecked =>
      rw [WellTyped, Strict, ← ip_iff hok, or_iff_right]
      rintro ⟨rfl, rfl⟩
      simp at hchecked
    · next hskipped =>
      rw [not_or] at hskipped
      have hempty : value = [] :=
        length_eq_zero_iff.1 (Nat.eq_zero_of_not_pos hskipped.1)
      have hrequired : required = false := by simpa using hskipped.2
      simp [WellTyped, Strict, hempty, hrequired]
  | mac => exact mac_iff hok
  | range bounds => exact range_iff hok
  | length min max =>
    have hlength : min ≤ value.length ∧ (value.length : ℤ) ≤ max := by
      simpa [valueOk, lengthOk] using hok
    exact iff_of_true hlength trivial
  | none => exact Iff.rfl
  | text min max => exact Iff.rfl
  | ipv6 required => exact Iff.rfl
  | temp => exact Iff.rfl

end Tomato64.SettingsCheck
