import Tomato64.Core.Scan
import Tomato64.Core.Split
import Mathlib.Data.List.Induction
import Mathlib.Logic.Function.Basic

/-!
# Form variables

`webcgi_init` cuts a query at `&` and `;`, undoes the escapes of each part and
then cuts it at its first `=`.  The table is written in the order of the parts,
so a later value replaces an earlier one.

Because a part is unescaped before it is cut, an escaped `=` in a name ends the
name.
-/

namespace Tomato64.Cgi

open List Scan Split Text

/-- `unescape`.  A malformed escape discards the rest of the text. -/
def unescape : Bytes → Bytes
  | [] => []
  | char :: rest =>
    if char = 37 then
      match rest with
      | high :: low :: tail =>
        if isDigitOf 16 high && isDigitOf 16 low then
          UInt8.ofNat (valueOf 16 [high, low]) :: unescape tail
        else []
      | _ => []
    else if char = 43 then 32 :: unescape rest
    else char :: unescape rest

/-- The loop of `str_replace` for texts of the same length: the first `skip`
characters belong to an occurrence that was replaced. -/
def strReplace (source target : Bytes) : ℕ → Bytes → Bytes
  | _, [] => []
  | 0, char :: rest =>
    if source.isPrefixOf (char :: rest) then
      target ++ strReplace source target (source.length - 1) rest
    else char :: strReplace source target 0 rest
  | skip + 1, _ :: rest => strReplace source target skip rest

/-- `%u` starts an escape of another kind, which is kept as text. -/
def maskUnicode (part : Bytes) : Bytes :=
  strReplace (bytes "%u") (bytes "~u") 0 part

/-- The table behind `webcgi_get`. -/
abbrev Table := Bytes → Option Bytes

def webcgiGet (table : Table) (name : Bytes) : Option Bytes :=
  table name

def webcgiSet (name value : Bytes) (table : Table) : Table :=
  Function.update table name (some value)

/-- One part of the query.  A part without `=` is passed over. -/
def initPart (table : Table) (part : Bytes) : Table :=
  match splitFirst 61 (cstr (unescape (maskUnicode part))) with
  | none => table
  | some (name, value) => webcgiSet name value table

def isSeparator (char : Byte) : Bool :=
  char = 38 || char = 59

/-- The bytes that `unescape` leaves in the place of a text.  An escape moves
what follows it up by two bytes; a malformed one is where the text then ends. -/
def unescapeInPlace : Bytes → Bytes
  | [] => []
  | char :: rest =>
    if char = 37 then
      match rest with
      | high :: low :: tail =>
        if isDigitOf 16 high && isDigitOf 16 low then
          UInt8.ofNat (valueOf 16 [high, low]) :: unescapeInPlace tail ++
            [0, (high :: low :: tail).getLastD 0]
        else 0 :: rest
      | _ => 0 :: rest
    else if char = 43 then 32 :: unescapeInPlace rest
    else char :: unescapeInPlace rest

/-- `strsep` at the first `=` of a string. -/
def endName : Bytes → Bytes
  | [] => []
  | char :: rest =>
    if char = 0 ∨ char = 61 then 0 :: rest else char :: endName rest

/-- What `webcgi_init` leaves in the place of the query. -/
def webcgiOverwrite (query : Bytes) : Bytes :=
  [0].intercalate ((query.splitOnP isSeparator).map fun part =>
    endName (unescapeInPlace (maskUnicode part)))

/-- `webcgi_init`, which starts from an empty table. -/
def webcgiInit (query : Option Bytes) : Table :=
  match query with
  | none => fun _ => none
  | some text => (text.splitOnP isSeparator).foldl initPart fun _ => none

/-! ## The encoding of forms -/

/-- The characters that a form encoder leaves alone. -/
def isPlain (char : Byte) : Bool :=
  (48 ≤ char && char ≤ 57) || (65 ≤ char && char ≤ 90) ||
    (97 ≤ char && char ≤ 122) || char = 42 || char = 45 || char = 46 ||
    char = 95

def hexDigit (value : ℕ) : Byte :=
  UInt8.ofNat (if value < 10 then 48 + value else 55 + value)

def escapeByte (char : Byte) : Bytes :=
  if isPlain char then [char]
  else if char = 32 then [43]
  else [37, hexDigit (char.toNat / 16), hexDigit (char.toNat % 16)]

def escape (text : Bytes) : Bytes :=
  text.flatMap escapeByte

/-- A pair in the form `name=value`. -/
def encodePair (pair : Bytes × Bytes) : Bytes :=
  escape pair.1 ++ 61 :: escape pair.2

variable (pairs : List (Bytes × Bytes))

def encodeForm : Bytes :=
  [38].intercalate (pairs.map encodePair)

def lastValue (name : Bytes) : Option Bytes :=
  (pairs.reverse.find? fun pair => pair.1 = name).map fun pair => pair.2

/-! ## Undoing escapes -/

variable {char : Byte}

theorem unescape_of_ne (hchar : char ≠ 37) (rest : Bytes) :
    unescape (char :: rest) =
      (if char = 43 then 32 else char) :: unescape rest := by
  rw [unescape.eq_def]
  simp only [if_neg hchar]
  split <;> rfl

/-- Both digits of an escape are hexadecimal and stand for the byte. -/
theorem hexDigit_pair {value : ℕ} (hvalue : value < 256) :
    (isDigitOf 16 (hexDigit (value / 16)) &&
      isDigitOf 16 (hexDigit (value % 16))) = true ∧
    valueOf 16 [hexDigit (value / 16), hexDigit (value % 16)] = value := by
  have hall : ∀ value < 256,
      (isDigitOf 16 (hexDigit (value / 16)) &&
        isDigitOf 16 (hexDigit (value % 16))) = true ∧
      valueOf 16 [hexDigit (value / 16), hexDigit (value % 16)] = value := by
    decide +kernel
  exact hall value hvalue

theorem unescape_hex (char : Byte) (rest : Bytes) :
    unescape (37 :: hexDigit (char.toNat / 16) ::
      hexDigit (char.toNat % 16) :: rest) = char :: unescape rest := by
  obtain ⟨hdigits, hvalue⟩ := hexDigit_pair char.toNat_lt
  rw [unescape, if_pos rfl, if_pos hdigits, hvalue, UInt8.ofNat_toNat]

/-- A plain character is no escape and no separator. -/
theorem ne_of_isPlain (hplain : isPlain char = true) :
    char ≠ 37 ∧ char ≠ 43 ∧ char ≠ 38 ∧ char ≠ 59 := by
  refine ⟨?_, ?_, ?_, ?_⟩ <;> rintro rfl <;> exact absurd hplain (by decide)

theorem unescape_escapeByte (char : Byte) (rest : Bytes) :
    unescape (escapeByte char ++ rest) = char :: unescape rest := by
  rw [escapeByte]
  split
  · next hplain =>
    obtain ⟨hpercent, hplus, _⟩ := ne_of_isPlain hplain
    rw [singleton_append, unescape_of_ne hpercent, if_neg hplus]
  split
  · next hspace =>
    rw [singleton_append, unescape_of_ne (by decide), hspace]
    rfl
  · exact unescape_hex char rest

theorem unescape_escape (text rest : Bytes) :
    unescape (escape text ++ rest) = text ++ unescape rest := by
  induction text with
  | nil => rfl
  | cons char text ih =>
    rw [escape, flatMap_cons, append_assoc, unescape_escapeByte]
    exact congrArg _ ih

theorem unescape_encodePair (pair : Bytes × Bytes) :
    unescape (encodePair pair) = pair.1 ++ 61 :: pair.2 := by
  have hvalue := unescape_escape pair.2 []
  rw [append_nil] at hvalue
  rw [encodePair, unescape_escape, unescape_of_ne (by decide), hvalue]
  simp [unescape]

/-! ## What an encoder writes -/

/-- Every character of an encoded form other than the separators. -/
theorem escapeByte_cases (char : Byte) :
    (∃ other, escapeByte char = [other] ∧ other ≠ 37 ∧ other ≠ 38 ∧
      other ≠ 59) ∨
    ∃ high low, escapeByte char = [37, high, low] ∧
      isDigitOf 16 high = true ∧ isDigitOf 16 low = true := by
  rw [escapeByte]
  split
  · next hplain =>
    obtain ⟨hpercent, _, hamp, hsemicolon⟩ := ne_of_isPlain hplain
    exact .inl ⟨char, rfl, hpercent, hamp, hsemicolon⟩
  split
  · exact .inl ⟨43, rfl, by decide⟩
  · have hdigits := (hexDigit_pair char.toNat_lt).1
    rw [Bool.and_eq_true] at hdigits
    exact .inr ⟨_, _, rfl, hdigits.1, hdigits.2⟩

theorem isSeparator_of_isDigitOf
    (hdigit : isDigitOf 16 char = true) : isSeparator char = false := by
  rw [isSeparator, Bool.or_eq_false_iff, decide_eq_false_iff_not,
    decide_eq_false_iff_not]
  constructor <;> rintro rfl <;> exact absurd hdigit (by decide)

theorem not_isSeparator_of_mem_escape {text : Bytes} :
    ∀ char ∈ escape text, isSeparator char = false := by
  intro char hchar
  obtain ⟨source, _, hmem⟩ := mem_flatMap.1 hchar
  rcases escapeByte_cases source with
    ⟨other, hother, _, hamp, hsemicolon⟩ | ⟨high, low, hhex, hhigh, hlow⟩
  · rw [hother, mem_singleton] at hmem
    subst hmem
    simp [isSeparator, hamp, hsemicolon]
  rw [hhex] at hmem
  simp only [mem_cons, not_mem_nil, or_false] at hmem
  rcases hmem with rfl | rfl | rfl
  · decide
  · exact isSeparator_of_isDigitOf hhigh
  · exact isSeparator_of_isDigitOf hlow

variable {pair : Bytes × Bytes}

theorem not_isSeparator_of_mem_encodePair :
    ∀ char ∈ encodePair pair, isSeparator char = false := by
  intro char hchar
  rcases mem_append.1 hchar with hname | hvalue
  · exact not_isSeparator_of_mem_escape char hname
  · rcases mem_cons.1 hvalue with rfl | hvalue
    · decide
    · exact not_isSeparator_of_mem_escape char hvalue

theorem maskUnicode_of_ne (hchar : char ≠ 37) (rest : Bytes) :
    maskUnicode (char :: rest) = char :: maskUnicode rest := by
  have hnone : (bytes "%u").isPrefixOf (char :: rest) = false := by
    have hne : ((37 : Byte) == char) = false := by
      simpa using Ne.symm hchar
    simp [bytes, ascii, List.isPrefixOf, hne]
  rw [maskUnicode, strReplace, hnone]
  rfl

theorem maskUnicode_hex {high low : Byte} (hhigh : isDigitOf 16 high = true)
    (hlow : isDigitOf 16 low = true) (rest : Bytes) :
    maskUnicode (37 :: high :: low :: rest) =
      37 :: high :: low :: maskUnicode rest := by
  have hne : ∀ char other : Byte, isDigitOf 16 char = true →
      isDigitOf 16 other = false → char ≠ other := by
    rintro char other hchar hother rfl
    rw [hchar] at hother
    cases hother
  have hnone : (bytes "%u").isPrefixOf (37 :: high :: low :: rest) =
      false := by
    have hletter : ((117 : Byte) == high) = false := by
      simpa using (hne high 117 hhigh (by decide)).symm
    simp [bytes, ascii, List.isPrefixOf, hletter]
  rw [maskUnicode, strReplace, hnone]
  refine congrArg (List.cons 37) ?_
  exact (maskUnicode_of_ne (hne high 37 hhigh (by decide)) _).trans
    (congrArg _ (maskUnicode_of_ne (hne low 37 hlow (by decide)) rest))

/-- An encoder writes no `%u`. -/
theorem maskUnicode_escape (text rest : Bytes) :
    maskUnicode (escape text ++ rest) = escape text ++ maskUnicode rest := by
  induction text with
  | nil => rfl
  | cons char text ih =>
    rw [escape, flatMap_cons, append_assoc, append_assoc]
    rw [escape] at ih
    rcases escapeByte_cases char with
      ⟨other, hother, hpercent, _⟩ | ⟨high, low, hhex, hhigh, hlow⟩
    · rw [hother, singleton_append, maskUnicode_of_ne hpercent, ih]
      rfl
    · rw [hhex, cons_append, cons_append, cons_append,
        nil_append, maskUnicode_hex hhigh hlow, ih]
      rfl

theorem maskUnicode_encodePair (pair : Bytes × Bytes) :
    maskUnicode (encodePair pair) = encodePair pair := by
  have hvalue := maskUnicode_escape pair.2 []
  rw [append_nil] at hvalue
  rw [encodePair, maskUnicode_escape, maskUnicode_of_ne (by decide), hvalue]
  simp [maskUnicode, strReplace]

/-! ## Reading a form -/

theorem splitOnP_encodeForm {pairs : List (Bytes × Bytes)}
    (hpairs : pairs ≠ []) :
    (encodeForm pairs).splitOnP isSeparator = pairs.map encodePair := by
  induction pairs with
  | nil => exact absurd rfl hpairs
  | cons pair pairs ih =>
    cases pairs with
    | nil =>
      rw [encodeForm, map_singleton, intercalate_singleton]
      exact splitOnP_eq_singleton not_isSeparator_of_mem_encodePair
    | cons next pairs =>
      rw [encodeForm, map_cons, map_cons, intercalate_cons_cons, append_assoc,
        singleton_append, splitOnP_append_cons_of_forall_mem
          not_isSeparator_of_mem_encodePair 38 rfl]
      exact congrArg _ (ih (by simp))

/-- A pair of the form without NUL is cut at the first `=` of its plain
text. -/
theorem initPart_encodePair
    (hname : NulFree pair.1) (hvalue : NulFree pair.2) (table : Table) :
    initPart table (encodePair pair) =
      match splitFirst 61 (pair.1 ++ 61 :: pair.2) with
      | none => table
      | some (name, value) => webcgiSet name value table := by
  have hfree : NulFree (pair.1 ++ 61 :: pair.2) :=
    nulFree_append.2 ⟨hname, nulFree_cons.2 ⟨by decide, hvalue⟩⟩
  rw [initPart, maskUnicode_encodePair, unescape_encodePair, cstr_eq_self hfree]

theorem initPart_of_mem {name : Bytes} (hname : 61 ∈ name) (table : Table)
    (part : Bytes) : initPart table part name = table name := by
  rw [initPart]
  cases hcut : splitFirst 61 (cstr (unescape (maskUnicode part))) with
  | none => rfl
  | some cut =>
    refine Function.update_of_ne ?_ _ _
    rintro rfl
    exact (splitFirst_eq_some_iff.1 hcut).2 hname

theorem webcgiGet_of_mem {name : Bytes} (hname : 61 ∈ name)
    (query : Option Bytes) : webcgiGet (webcgiInit query) name = none := by
  have hfold : ∀ (parts : List Bytes) (table : Table), table name = none →
      parts.foldl initPart table name = none := by
    intro parts
    induction parts with
    | nil => exact fun _ hnone => hnone
    | cons part parts ih =>
      intro table hnone
      exact ih _ ((initPart_of_mem hname table part).trans hnone)
  cases query with
  | none => rfl
  | some text => exact hfold _ _ rfl

theorem lastValue_append (pair : Bytes × Bytes) (name : Bytes) :
    lastValue (pairs ++ [pair]) name =
      if pair.1 = name then some pair.2 else lastValue pairs name := by
  rw [lastValue, reverse_append]
  by_cases hname : pair.1 = name
  · simp [hname]
  · simp [hname, lastValue]

theorem lastValue_isSome {pairs : List (Bytes × Bytes)} (hpair : pair ∈ pairs) :
    (lastValue pairs pair.1).isSome := by
  rw [lastValue, Option.isSome_map, find?_isSome]
  exact ⟨pair, mem_reverse.2 hpair, by simp⟩

/-- The table holds the last value of each name when no name has an `=`. -/
theorem foldl_initPart {pairs : List (Bytes × Bytes)}
    (hfree : ∀ pair ∈ pairs, NulFree pair.1 ∧ NulFree pair.2)
    (hequals : ∀ pair ∈ pairs, 61 ∉ pair.1) :
    (pairs.map encodePair).foldl initPart (fun _ => none) =
      lastValue pairs := by
  induction pairs using reverseRecOn with
  | nil => rfl
  | append_singleton pairs pair ih =>
    have hpair : pair ∈ pairs ++ [pair] := by simp
    have hmem : ∀ other ∈ pairs, other ∈ pairs ++ [pair] :=
      fun other hother => mem_append_left _ hother
    rw [map_append, foldl_append,
      ih (fun other hother => hfree other (hmem other hother))
        (fun other hother => hequals other (hmem other hother)),
      map_singleton, foldl_cons, foldl_nil,
      initPart_encodePair (hfree pair hpair).1 (hfree pair hpair).2,
      splitFirst_append (hequals pair hpair)]
    funext name
    rw [lastValue_append]
    change webcgiSet pair.1 pair.2 _ name = _
    rw [webcgiSet]
    by_cases hname : pair.1 = name
    · subst hname
      simp
    · rw [Function.update_of_ne (Ne.symm hname), if_neg hname]

/-- Every variable of an encoded form is found with the last value given for
it, and no other variable is found. -/
def FormDecodes : Prop :=
  ∀ name, webcgiGet (webcgiInit (some (encodeForm pairs))) name =
    lastValue pairs name

/-- A form is read back exactly when no name has an `=` in it. -/
theorem formDecodes_iff {pairs : List (Bytes × Bytes)}
    (hfree : ∀ pair ∈ pairs, NulFree pair.1 ∧ NulFree pair.2) :
    FormDecodes pairs ↔ ∀ pair ∈ pairs, 61 ∉ pair.1 := by
  constructor
  · intro hdecodes pair hpair hequals
    have hsome := lastValue_isSome hpair
    rw [← hdecodes pair.1, webcgiGet_of_mem hequals] at hsome
    cases hsome
  · intro hequals name
    by_cases hpairs : pairs = []
    · subst hpairs
      rfl
    · rw [webcgiInit, splitOnP_encodeForm hpairs, foldl_initPart hfree hequals]
      rfl

/-- Two values for one name, with separators in the second. -/
def repeatedName : List (Bytes × Bytes) :=
  [(bytes "dns", bytes "1.1.1.1"), (bytes "dns", bytes "a=b&c;d")]

theorem formDecodes_repeatedName : FormDecodes repeatedName :=
  (formDecodes_iff (by decide)).2 (by decide)

/-- The name `a=b` is cut at its own `=`. -/
theorem name_with_equals_is_lost :
    webcgiGet (webcgiInit (some (encodeForm [(bytes "a=b", bytes "c")])))
        (bytes "a=b") = none ∧
      webcgiGet (webcgiInit (some (encodeForm [(bytes "a=b", bytes "c")])))
        (bytes "a") = some (bytes "b=c") ∧
      lastValue [(bytes "a=b", bytes "c")] (bytes "a=b") =
        some (bytes "c") := by
  decide

end Tomato64.Cgi
