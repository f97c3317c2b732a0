import Mathlib.Data.List.TakeWhile
import Mathlib.Data.UInt

/-!
# Bytes and text

C strings are byte lists here.  Constants of the source are written as Lean
strings and turned into bytes by `bytes`, one byte for every ASCII character.
-/

namespace Tomato64.Text

open List

abbrev Byte := UInt8
abbrev Bytes := List Byte

/-- Texts are compared byte by byte. -/
instance lawfulBEqBytes : LawfulBEq Bytes :=
  List.instLawfulBEq

def ascii (char : Char) : Byte :=
  UInt8.ofNat char.toNat

/-- A string constant of the source as its bytes. -/
def bytes (text : String) : Bytes :=
  text.toList.map ascii

/-- A condition on the bytes of a text is decided along the text.  There are
only finitely many bytes, and trying them all would come first otherwise. -/
instance (priority := 2000) decidableForallByte {p : Byte → Prop}
    [DecidablePred p] (text : Bytes) : Decidable (∀ char ∈ text, p char) :=
  List.decidableBAll p text

/-- Every property of bytes can be checked on the 256 of them. -/
theorem forall_byte {p : Byte → Prop} (hall : ∀ code < 256, p (UInt8.ofNat code))
    (char : Byte) : p char := by
  have hchar := hall char.toNat char.toNat_lt
  rwa [UInt8.ofNat_toNat] at hchar

/-- C strings hold no NUL. -/
def NulFree (text : Bytes) : Prop :=
  (0 : Byte) ∉ text

instance (text : Bytes) : Decidable (NulFree text) :=
  inferInstanceAs (Decidable (_ ∉ _))

variable {text : Bytes}

theorem nulFree_cons {char : Byte} :
    NulFree (char :: text) ↔ char ≠ 0 ∧ NulFree text := by
  rw [NulFree, mem_cons, not_or, ne_comm, NulFree]

theorem nulFree_append {left right : Bytes} :
    NulFree (left ++ right) ↔ NulFree left ∧ NulFree right := by
  rw [NulFree, mem_append, not_or, NulFree, NulFree]

/-- `strcmp`, as the order of its two texts. -/
def strcmp : Bytes → Bytes → Ordering
  | [], [] => .eq
  | [], _ :: _ => .lt
  | _ :: _, [] => .gt
  | left :: lefts, right :: rights =>
    if left < right then .lt
    else if right < left then .gt
    else strcmp lefts rights

theorem strcmp_eq_compareLex : strcmp = List.compareLex compare := by
  funext left right
  fun_induction strcmp left right with
  | case1 => rfl
  | case2 => rfl
  | case3 => rfl
  | case4 left lefts right rights hless =>
    have hcompare : compare left right = .lt := if_pos hless
    rw [List.compareLex_cons_cons, hcompare, Ordering.lt_then]
  | case5 left lefts right rights hnotLess hgreater =>
    have hcompare : compare left right = .gt :=
      (if_neg hnotLess).trans (if_neg (UInt8.ne_of_lt hgreater).symm)
    rw [List.compareLex_cons_cons, hcompare, Ordering.gt_then]
  | case6 left lefts right rights hnotLess hnotGreater ih =>
    have hsame : left = right :=
      UInt8.le_antisymm (UInt8.not_lt.mp hnotGreater) (UInt8.not_lt.mp hnotLess)
    have hcompare : compare left right = .eq :=
      (if_neg hnotLess).trans (if_pos hsame)
    rw [List.compareLex_cons_cons, hcompare, Ordering.eq_then, ih]

instance : Std.TransCmp strcmp :=
  strcmp_eq_compareLex ▸ inferInstance

instance : Std.LawfulEqCmp strcmp :=
  strcmp_eq_compareLex ▸ inferInstance

/-- The text a buffer holds up to its first NUL. -/
def cstr (buffer : Bytes) : Bytes :=
  buffer.takeWhile (· ≠ 0)

theorem nulFree_cstr (buffer : Bytes) : NulFree (cstr buffer) := by
  intro hmem
  simpa [cstr] using mem_takeWhile_imp hmem

theorem length_cstr_le (buffer : Bytes) :
    (cstr buffer).length ≤ buffer.length :=
  ( takeWhile_prefix _).length_le

/-- Text without NUL is read on into what follows. -/
theorem cstr_append (htext : NulFree text) (rest : Bytes) :
    cstr (text ++ rest) = text ++ cstr rest := by
  have hall : ∀ byte ∈ text, decide (byte ≠ 0) = true := by
    intro byte hbyte
    rw [decide_eq_true_eq]
    rintro rfl
    exact htext hbyte
  rw [cstr, takeWhile_append_of_pos hall]
  rfl

/-- Nothing behind a NUL is read. -/
theorem cstr_append_of_not_nulFree (htext : ¬ NulFree text)
    (rest : Bytes) : cstr (text ++ rest) = cstr text := by
  rw [cstr, takeWhile_append, if_neg]
  · rfl
  intro hlength
  have hwhole := ( takeWhile_prefix (· ≠ (0 : Byte))).eq_of_length hlength
  exact htext (hwhole ▸ nulFree_cstr text)

theorem cstr_eq_self (htext : NulFree text) : cstr text = text := by
  simpa [cstr] using cstr_append htext []

/-! ## Comparing and searching -/

def toLower (char : Byte) : Byte :=
  if 65 ≤ char ∧ char ≤ 90 then char + 32 else char

/-- `strncasecmp(text, key, strlen(key)) == 0`. -/
def startsNoCase (key text : Bytes) : Bool :=
  (text.take key.length).map toLower = key.map toLower

/-- `strcasecmp(left, right) == 0`. -/
def equalNoCase (left right : Bytes) : Bool :=
  left.map toLower = right.map toLower

/-- The text before and behind the first occurrence of `key`, as `strstr`
finds it. -/
def splitAtKey (key : Bytes) : Bytes → Option (Bytes × Bytes)
  | [] => if key = [] then some ([], []) else none
  | char :: text =>
    if key.isPrefixOf (char :: text) then
      some ([], (char :: text).drop key.length)
    else (splitAtKey key text).map fun cut => (char :: cut.1, cut.2)

def isDigit (char : Byte) : Bool :=
  48 ≤ char && char ≤ 57

/-- The number that a string of digits stands for. -/
def digitsValue (digits : Bytes) : ℕ :=
  digits.foldl (fun value digit => 10 * value + (digit.toNat - 48)) 0

def digitChar (value : ℕ) : Byte :=
  UInt8.ofNat (48 + value)

/-- A number as `printf` writes it. -/
def decimal (number : ℕ) : Bytes :=
  if number < 10 then [digitChar number]
  else decimal (number / 10) ++ [digitChar (number % 10)]

/-- The digits of `%x`. -/
def hexChar (value : ℕ) : Byte :=
  if value < 10 then digitChar value else UInt8.ofNat (87 + value)

theorem isDigit_digitChar {value : ℕ} (hvalue : value < 10) :
    isDigit (digitChar value) = true := by
  have hall : ∀ value < 10, isDigit (digitChar value) = true := by decide
  exact hall value hvalue

theorem isDigit_of_mem_decimal (number : ℕ) :
    ∀ char ∈ decimal number, isDigit char = true := by
  induction number using decimal.induct with
  | case1 number hsmall =>
    rw [decimal, if_pos hsmall]
    simpa using isDigit_digitChar hsmall
  | case2 number hlarge ih =>
    rw [decimal, if_neg hlarge, forall_mem_append]
    refine ⟨ih, ?_⟩
    simpa using isDigit_digitChar (Nat.mod_lt number (by decide))

/-- A number has a first digit, which is not zero unless the number is. -/
theorem exists_decimal_eq_cons (number : ℕ) :
    ∃ first others, decimal number = first :: others ∧
      (first = 48 → number = 0) := by
  induction number using decimal.induct with
  | case1 number hsmall =>
    have hzero : ∀ value < 10, digitChar value = 48 → value = 0 := by decide
    rw [decimal, if_pos hsmall]
    exact ⟨_, [], rfl, hzero number hsmall⟩
  | case2 number hlarge ih =>
    obtain ⟨first, others, hdecimal, hfirst⟩ := ih
    rw [decimal, if_neg hlarge, hdecimal]
    refine ⟨first, _, rfl, fun hzero => ?_⟩
    have hquotient := hfirst hzero
    omega

theorem length_decimal_le_of_lt {count number : ℕ}
    (hnumber : number < 10 ^ (count + 1)) :
    (decimal number).length ≤ count + 1 := by
  induction count generalizing number with
  | zero =>
    rw [decimal, if_pos (by omega)]
    exact Nat.le_refl 1
  | succ count ih =>
    rw [decimal]
    split
    · exact Nat.succ_le_succ (Nat.zero_le _)
    have hproduct : number < 10 * 10 ^ (count + 1) := by
      rw [← Nat.pow_succ']
      exact hnumber
    have hquotient := ih (Nat.div_lt_of_lt_mul hproduct)
    rw [length_append, length_singleton]
    omega

theorem takeWhile_digits {digits rest : Bytes}
    (hdigits : ∀ char ∈ digits, isDigit char = true)
    (hrest : ∀ char, rest.head? = some char → isDigit char = false) :
    (digits ++ rest).takeWhile isDigit = digits ∧
      (digits ++ rest).dropWhile isDigit = rest := by
  rw [takeWhile_append_of_pos hdigits, dropWhile_append_of_pos hdigits]
  cases rest with
  | nil => simp
  | cons char rest =>
    have hstop := hrest char rfl
    simp [hstop]

theorem length_of_splitAtKey {key before behind : Bytes}
    (hcut : splitAtKey key text = some (before, behind)) :
    text.length = before.length + key.length + behind.length := by
  induction text generalizing before with
  | nil =>
    rw [splitAtKey] at hcut
    split at hcut
    · next hkey =>
      cases hcut
      simp [hkey]
    · cases hcut
  | cons char text ih =>
    rw [splitAtKey] at hcut
    split at hcut
    · next hstarts =>
      obtain ⟨tail, htail⟩ := isPrefixOf_iff_prefix.1 hstarts
      cases hcut
      rw [← htail]
      simp
    · rw [Option.map_eq_some_iff] at hcut
      obtain ⟨⟨front, back⟩, hcut, hsame⟩ := hcut
      rw [Prod.mk.injEq] at hsame
      obtain ⟨rfl, rfl⟩ := hsame
      simp only [length_cons, ih hcut]
      omega

end Tomato64.Text
