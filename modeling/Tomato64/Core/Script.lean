import Tomato64.Core.Scan

/-!
# String literals in inline scripts

A text that a page puts between single quotes has two readers.  The HTML reader
looks for the end tag of the script and knows nothing of strings.  The script's
own reader comes second.

`readLiteral` reads the part of the string grammar that ASCII text needs.  A
text made of plain characters and of escapes closes the script exactly when
what it was made from does.
-/

namespace Tomato64.Script

open List Scan Text

/-- A 16 bit element of a script's strings. -/
abbrev CodeUnit := UInt16

def utf16 (char : Char) : List CodeUnit :=
  if char.toNat < 0x10000 then [UInt16.ofNat char.toNat]
  else
    [UInt16.ofNat (0xd800 + (char.toNat - 0x10000) / 0x400),
      UInt16.ofNat (0xdc00 + (char.toNat - 0x10000) % 0x400)]

/-! ## Literals -/

/-- The code unit that a number of hexadecimal digits stands for, and the text
behind them. -/
def takeHex (count : ℕ) (text : Bytes) : Option (CodeUnit × Bytes) :=
  if (text.take count).length = count ∧
      ∀ digit ∈ text.take count, isDigitOf 16 digit = true then
    some (UInt16.ofNat (valueOf 16 (text.take count)), text.drop count)
  else none

def simpleEscape (letter : Byte) : Option CodeUnit :=
  if letter = 34 then some 34
  else if letter = 39 then some 39
  else if letter = 92 then some 92
  else if letter = 98 then some 8
  else if letter = 102 then some 12
  else if letter = 110 then some 10
  else if letter = 114 then some 13
  else if letter = 116 then some 9
  else if letter = 118 then some 11
  else none

/-- What an escape stands for, and the text behind it. -/
def takeEscape : Bytes → Option (CodeUnit × Bytes)
  | [] => none
  | letter :: rest =>
    if letter = 120 then takeHex 2 rest
    else if letter = 117 then takeHex 4 rest
    else (simpleEscape letter).map fun unit => (unit, rest)

theorem length_of_takeHex {count : ℕ} {text rest : Bytes} {unit : CodeUnit}
    (hhex : takeHex count text = some (unit, rest)) :
    rest.length ≤ text.length := by
  rw [takeHex] at hhex
  split at hhex
  · cases hhex
    rw [length_drop]
    omega
  · cases hhex

theorem length_of_takeEscape {text rest : Bytes} {unit : CodeUnit}
    (hescape : takeEscape text = some (unit, rest)) :
    rest.length < text.length := by
  cases text with
  | nil => cases hescape
  | cons letter text =>
    rw [takeEscape] at hescape
    split at hescape
    · exact Nat.lt_succ_of_le (length_of_takeHex hescape)
    split at hescape
    · exact Nat.lt_succ_of_le (length_of_takeHex hescape)
    · rw [Option.map_eq_some_iff] at hescape
      obtain ⟨_, _, hsame⟩ := hescape
      cases hsame
      simp

/-- The string between single quotes, read from behind the opening one, and
what follows the closing one.  A line end is not part of a string. -/
def readLiteral (text : Bytes) : Option (List CodeUnit × Bytes) :=
  match text with
  | [] => none
  | char :: rest =>
    if char = 39 then some ([], rest)
    else if char = 92 then
      match _ : takeEscape rest with
      | none => none
      | some (unit, tail) =>
        (readLiteral tail).map fun parsed => (unit :: parsed.1, parsed.2)
    else if char = 10 ∨ char = 13 ∨ 128 ≤ char then none
    else
      (readLiteral rest).map fun parsed =>
        (char.toUInt16 :: parsed.1, parsed.2)
termination_by text.length
decreasing_by
  · have hlength := length_of_takeEscape ‹_›
    simp only [length_cons]
    omega
  · simp

theorem readLiteral_quote (rest : Bytes) :
    readLiteral (39 :: rest) = some ([], rest) := by
  rw [readLiteral, if_pos rfl]

theorem readLiteral_escape {text tail : Bytes} {unit : CodeUnit}
    (hescape : takeEscape text = some (unit, tail)) :
    readLiteral (92 :: text) =
      (readLiteral tail).map fun parsed => (unit :: parsed.1, parsed.2) := by
  rw [readLiteral, if_neg (by decide), if_pos rfl]
  split
  · next hnone =>
    rw [hescape] at hnone
    cases hnone
  · next hsome =>
    rw [hescape] at hsome
    cases hsome
    rfl

/-- The characters that need no escape anywhere. -/
def isPlain (char : Byte) : Bool :=
  32 ≤ char && char < 127 && char ≠ 34 && char ≠ 39 && char ≠ 92

theorem readLiteral_plain {char : Byte} (hchar : isPlain char = true)
    (rest : Bytes) :
    readLiteral (char :: rest) = (readLiteral rest).map fun parsed =>
        (char.toUInt16 :: parsed.1, parsed.2) := by
  simp only [isPlain, Bool.and_eq_true, decide_eq_true_eq] at hchar
  obtain ⟨⟨⟨⟨hlow, hhigh⟩, _⟩, hquote⟩, hbackslash⟩ := hchar
  have hnewline : char ≠ 10 := by
    rintro rfl
    exact absurd hlow (by decide)
  have hreturn : char ≠ 13 := by
    rintro rfl
    exact absurd hlow (by decide)
  have hascii : ¬ 128 ≤ char := by
    rw [UInt8.not_le]
    exact UInt8.lt_trans hhigh (by decide)
  rw [readLiteral, if_neg hquote, if_neg hbackslash, if_neg]
  rintro (hchar | hchar | hchar)
  · exact hnewline hchar
  · exact hreturn hchar
  · exact hascii hchar

theorem takeHex_append {digits : Bytes}
    (hdigits : ∀ digit ∈ digits, isDigitOf 16 digit = true) (rest : Bytes) :
    takeHex digits.length (digits ++ rest) =
      some (UInt16.ofNat (valueOf 16 digits), rest) := by
  rw [takeHex, take_left, drop_left, if_pos ⟨rfl, hdigits⟩]

/-! ## The end of a script -/

/-- Whether the characters at the start of a text pass the tests of a pattern,
one for each. -/
def startsWith : List (Byte → Bool) → Bytes → Bool
  | [], _ => true
  | _ :: _, [] => false
  | test :: tests, char :: text => test char && startsWith tests text

def occurs (pattern : List (Byte → Bool)) : Bytes → Bool
  | [] => false
  | char :: text => startsWith pattern (char :: text) || occurs pattern text

/-- `</script` in letters of any case. -/
def tagName : List (Byte → Bool) :=
  (bytes "</script").map fun key char => toLower char = key

/-- A script ends where its end tag starts: behind the name there is a blank, a
slash or a closing bracket. -/
def endTag : List (Byte → Bool) :=
  tagName ++ [fun char => char = 9 || char = 10 || char = 12 || char = 13 ||
    char = 32 || char = 47 || char = 62]

/-- The end tags without any character that gets escaped. -/
def plainEndTag : List (Byte → Bool) :=
  tagName ++ [fun char => char = 32 || char = 47 || char = 62]

/-- A text written as it stands or as an escape. -/
inductive Shown (out source : Bytes) : Prop
  | plain (char : Byte) (hplain : isPlain char = true) (hout : out = [char])
      (hsource : source = [char])
  | escaped (tail : Bytes) (hout : out = 92 :: tail) (htail : 60 ∉ tail)
      (hne : source ≠ []) (hsource : ∀ char ∈ source, isPlain char = false)

def restrict (test : Byte → Bool) (char : Byte) : Bool :=
  test char && isPlain char

theorem startsWith_restrict_of_not_plain {pattern : List (Byte → Bool)}
    (hpattern : pattern ≠ []) {char : Byte} (hchar : isPlain char = false)
    (text : Bytes) : startsWith (pattern.map restrict) (char :: text) = false := by
  obtain ⟨test, tests, rfl⟩ := exists_cons_of_ne_nil hpattern
  simp [startsWith, restrict, hchar]

section Shown

variable {α : Type*} {out source : α → Bytes} {pattern : List (Byte → Bool)}

theorem startsWith_shown (hshown : ∀ item, Shown (out item) (source item))
    (hpattern : ∀ test ∈ pattern, test 92 = false ∧ test 39 = false)
    (items : List α) :
    startsWith pattern (items.flatMap out ++ [39]) =
      startsWith (pattern.map restrict) (items.flatMap source) := by
  induction pattern generalizing items with
  | nil => rfl
  | cons test tests ih =>
    rw [forall_mem_cons] at hpattern
    cases items with
    | nil => simp [startsWith, hpattern.1.2]
    | cons item items =>
      rw [flatMap_cons, flatMap_cons, append_assoc]
      cases hshown item with
      | plain char hplain hout hsource =>
        rw [hout, hsource]
        simp [startsWith, restrict, hplain, ← ih hpattern.2 items]
      | escaped tail hout htail hne hsource =>
        obtain ⟨char, chars, hcons⟩ := exists_cons_of_ne_nil hne
        rw [hout, hcons, cons_append, cons_append,
          startsWith_restrict_of_not_plain (by simp)
            (hsource char (by simp [hcons]))]
        simp [startsWith, hpattern.1.1]

theorem occurs_append {front : Bytes}
    (hfront : ∀ char ∈ front, ∀ text, startsWith pattern (char :: text) = false)
    (rest : Bytes) : occurs pattern (front ++ rest) = occurs pattern rest := by
  induction front with
  | nil => rfl
  | cons char front ih =>
    rw [forall_mem_cons] at hfront
    rw [cons_append, occurs, hfront.1, ih hfront.2, Bool.false_or]

/-- A pattern that starts with `<` and holds no quote or backslash occurs in the
shown text exactly when it occurs in plain characters of the source. -/
theorem occurs_shown (hshown : ∀ item, Shown (out item) (source item))
    (hpattern : ∀ test ∈ pattern, test 92 = false ∧ test 39 = false)
    (hfirst : ∀ char ≠ (60 : Byte), ∀ text,
      startsWith pattern (char :: text) = false)
    (hne : pattern ≠ []) (items : List α) :
    occurs pattern (39 :: (items.flatMap out ++ [39])) =
      occurs (pattern.map restrict) (items.flatMap source) := by
  have hquote : ∀ text, occurs pattern (39 :: text) = occurs pattern text := by
    intro text
    rw [occurs, hfirst 39 (by decide), Bool.false_or]
  rw [hquote]
  induction items with
  | nil => simp [hquote, occurs]
  | cons item items ih =>
    have hstarts := startsWith_shown hshown hpattern (item :: items)
    rw [flatMap_cons, flatMap_cons, append_assoc] at hstarts ⊢
    cases hshown item with
    | plain char hplain hout hsource =>
      rw [hout, hsource, singleton_append, singleton_append] at hstarts ⊢
      rw [occurs, occurs, hstarts, ih]
    | escaped tail hout htail hne' hsource =>
      have hfront : ∀ char ∈ (92 : Byte) :: tail, ∀ text,
          startsWith pattern (char :: text) = false := by
        intro char hchar text
        refine hfirst char ?_ text
        rintro rfl
        rcases mem_cons.1 hchar with hchar | hchar
        · exact absurd hchar (by decide)
        · exact htail hchar
      have hsource' : ∀ char ∈ source item, ∀ text,
          startsWith (pattern.map restrict) (char :: text) = false :=
        fun char hchar text =>
          startsWith_restrict_of_not_plain hne (hsource char hchar) text
      rw [hout, occurs_append hfront, occurs_append hsource', ih]

end Shown

theorem endTag_map_restrict : endTag.map restrict = plainEndTag := by
  have hname : tagName.map restrict = tagName := by
    rw [tagName, map_map]
    refine map_congr_left fun key hkey => funext fun char => ?_
    have hall : ∀ char : Byte, ∀ key ∈ bytes "</script",
        restrict (fun char => toLower char = key) char =
          decide (toLower char = key) :=
      forall_byte (by decide +kernel)
    exact hall char key hkey
  have hlast : ∀ char : Byte,
      restrict (fun char => char = 9 || char = 10 || char = 12 || char = 13 ||
        char = 32 || char = 47 || char = 62) char =
          (decide (char = 32) || decide (char = 47) || decide (char = 62)) :=
    forall_byte (by decide +kernel)
  rw [endTag, plainEndTag, map_append, hname, map_singleton]
  congr 2
  exact funext hlast

/-- Shown text closes the script exactly when an end tag stands in plain
characters of the source. -/
theorem occurs_endTag_shown {α : Type*} {out source : α → Bytes}
    (hshown : ∀ item, Shown (out item) (source item)) (items : List α) :
    occurs endTag (39 :: (items.flatMap out ++ [39])) =
      occurs plainEndTag (items.flatMap source) := by
  have hfirst : ∀ char ≠ (60 : Byte), ∀ text,
      startsWith endTag (char :: text) = false := by
    intro char hchar text
    have hall : ∀ char : Byte, char ≠ 60 → toLower char ≠ 60 :=
      forall_byte (by decide +kernel)
    have hname : bytes "</script" = [60, 47, 115, 99, 114, 105, 112, 116] := by
      decide
    simp [endTag, tagName, hname, startsWith, hall char hchar]
  have hpattern : endTag.all (fun test => !test 92 && !test 39) = true := by
    decide
  rw [occurs_shown hshown (by simpa using hpattern) hfirst (by decide),
    endTag_map_restrict]

end Tomato64.Script
