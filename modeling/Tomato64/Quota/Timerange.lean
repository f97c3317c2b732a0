import Tomato64.Core.Intervals
import Tomato64.Core.SelectionSort
import Tomato64.Quota.Ranges
import Mathlib.Data.List.DropRight

/-!
# The timerange match

`libxt_timerange.c` turns the text of a range list into an array of seconds
and the list of weekdays into seven flags.  The kernel half of the match walks
over the array for every packet (`xt_timerange.c`).

The arrays of the source end with a `-1`; here that is the end of the list.
-/

namespace Tomato64.Timerange

open Intervals Scan Split Text
open List hiding flatten lookup
open SelectionSort QuotaRanges

def toLowercase (text : Bytes) : Bytes :=
  text.map toLower

/-- All pieces between separators, or the first `maxPieces` of them. -/
def splitOnSeparators (lineStr : Bytes) (separator : Byte)
    (maxPieces : Option ℕ) : List Bytes :=
  match maxPieces with
  | none => words separator lineStr
  | some count => (words separator lineStr).take count

def isFlanking (char : Byte) : Bool :=
  char = 32 || char = 9 || char = 10 || char = 13

def trimFlankingWhitespace (text : Bytes) : Bytes :=
  (text.dropWhile isFlanking).rdropWhile isFlanking

/-! ## Clock times -/

def dayPrefixes : List Bytes :=
  ["sun", "mon", "tue", "wed", "thu", "fri", "sat"].map bytes

/-- The day that a time begins with, if more than the day follows. -/
def weekdayOf (timeStr : Bytes) : Option ℕ :=
  if 3 < timeStr.length then
    dayPrefixes.findIdx? fun day => toLowercase (timeStr.take 3) = day
  else none

/-- The loop over the parts of a time.  A part that is no number leaves `tmp`
as it was. -/
def addParts : UInt64 → UInt64 → UInt64 → List Bytes → UInt64
  | _, seconds, _, [] => seconds
  | tmp, seconds, multiple, part :: parts =>
    let tmp :=
      if (scanNumber 10 part.length part).isSome then strtoul part else tmp
    addParts tmp (seconds + tmp * multiple) (multiple / 60) parts

variable (stale : Bytes → UInt64)

/-- The seconds that a time stands for.  `stale` is what the variable for the
parts holds before one is read. -/
def parseTime (timeStr : Bytes) : UInt64 :=
  let text := timeStr.dropWhile isBlank
  match weekdayOf text with
  | some weekday =>
    addParts (stale timeStr) (UInt64.ofNat weekday * 60 * 60 * 24) (60 * 60)
      (splitOnSeparators
        ((text.drop 3).dropWhile fun char => !isDigit char) 58 none)
  | none =>
    addParts (stale timeStr) 0 (60 * 60) (splitOnSeparators text 58 none)

/-- The conversion from `unsigned long` to `long`. -/
def toLong (value : UInt64) : ℤ :=
  value.toBitVec.toInt

/-- A piece of a range list, which has to have two ends. -/
def parsePiece (piece : Bytes) : Option Range :=
  match splitOnSeparators (trimFlankingWhitespace piece) 45 (some 2) with
  | [start, stop] =>
    some (toLong (parseTime stale (trimFlankingWhitespace start)),
      toLong (parseTime stale (trimFlankingWhitespace stop)))
  | _ => none

/-! ## Range lists -/

/-- The conversion from `long` to `int`. -/
def toInt (value : ℤ) : ℤ :=
  (BitVec.ofInt 32 value).toInt

/-- The search for the next range in order: the least start so far, where it
was found, and the place at hand. -/
def findNextStart : ℤ → ℕ → ℕ → List Range → ℕ
  | _, nextStartIndex, _, [] => nextStartIndex
  | nextStart, nextStartIndex, testIndex, range :: ranges =>
    if nextStart < 0 ∨ nextStart > range.1 then
      findNextStart (toInt range.1) testIndex (testIndex + 1) ranges
    else findNextStart nextStart nextStartIndex (testIndex + 1) ranges

def nextStartIndex (ranges : List Range) : ℕ :=
  findNextStart (-1) 0 0 ranges

def sortRanges (ranges : List Range) : List Range :=
  sortWith nextStartIndex ranges.length ranges

/-- A range that runs past the end of the span is cut in two, the second part
of which comes first. -/
def adjustRanges (span : ℤ) (parsed : List ℤ) : Option (List ℤ) :=
  match parsed.head?, parsed.getLast? with
  | some first, some last =>
    if first = 0 ∧ parsed[1]? = some span then none
    else
      let adjusted :=
        if last < first then 0 :: last :: parsed.dropLast else parsed
      some (if adjusted.length % 2 = 1 then adjusted ++ [span] else adjusted)
  | _, _ => none

def parseTimeRanges (timeRanges : Bytes)
    (isWeeklyRange : Bool) : Option (List ℤ) :=
  match (splitOnSeparators timeRanges 44 none).mapM (parsePiece stale) with
  | none => none
  | some ranges =>
    if overlapFound (span isWeeklyRange) ranges then none
    else
      -- The loops stop at a `-1`, also at one that was parsed.
      let sorted := sortRanges (ranges.takeWhile fun range => range.1 ≠ -1)
      let flat := (flatten sorted).takeWhile fun value => value ≠ -1
      adjustRanges (span isWeeklyRange) (dropTouching flat)

/-! ## The kernel -/

/-- The entries of `struct xt_timerange_info` for ranges, one of them for the
`-1` at the end. -/
def rangeLength : ℕ := 51

/-- The loop of `timerange_mt` over the ranges. -/
def scanRanges (ranges : List ℤ) (seconds : ℤ) : Bool :=
  lookup ranges seconds

/-! ## Weekdays -/

/-- The flags of the days that a name stands for: one day or all of them. -/
def flagsOf (day : Bytes) : Option (List Bool) :=
  match dayPrefixes.findIdx? fun name => day = name with
  | some index => some ((range 7).map fun other => other = index)
  | none =>
    if day = bytes "all" then some (replicate 7 true) else none

/-- A piece is told by its first three letters. -/
def dayFlags (piece : Bytes) : Option (List Bool) :=
  flagsOf (toLowercase ((trimFlankingWhitespace piece).take 3))

/-- The loop over the pieces.  A piece that names no day is skipped. -/
def addDays (weekdays : List Bool) (piece : Bytes) : List Bool :=
  match dayFlags piece with
  | some flags => List.zipWith or weekdays flags
  | none => weekdays

def parseWeekdays (wdStr : Bytes) : Option (List Bool) :=
  let days := splitOnSeparators wdStr 44 none
  if days.any fun piece => (dayFlags piece).isSome then
    some (days.foldl addDays (replicate 7 false))
  else none

/-! ## Options -/

inductive Opt
  | hours
  | weekdays
  | weeklyRange
deriving DecidableEq, Repr

/-- The bit of an option in the flags and in the type of a match. -/
def Opt.val : Opt → ℕ
  | .hours => 1
  | .weekdays => 2
  | .weeklyRange => 4

/-- `struct xt_timerange_info`. -/
structure XtTimerangeInfo where
  ranges : List ℤ
  days : List Bool
  type : ℕ
  invert : Bool

/-- The options that an option must not follow. -/
def Opt.excludes : Opt → List Opt
  | .hours => [.hours, .weeklyRange]
  | .weekdays => [.weekdays, .weeklyRange]
  | .weeklyRange => [.hours, .weekdays, .weeklyRange]

/-- `parse` of one option with its value: the new flags and the new match, or
nothing when the option is refused. -/
def parse (c : Opt) (value : Bytes) (invert : Bool)
    (flags : ℕ) (info : XtTimerangeInfo) : Option (ℕ × XtTimerangeInfo) :=
  let info := if flags = 0 then { info with invert := invert } else info
  if c.excludes.any fun other => flags &&& other.val ≠ 0 then none
  else
    let type := flags + c.val
    match c with
    | .weekdays =>
      (parseWeekdays value).map fun days =>
        (type, { info with days := days, type := type })
    | _ =>
      match parseTimeRanges stale value (c = .weeklyRange) with
      | none => none
      | some parsed =>
        if rangeLength ≤ parsed.length then none
        else some (type, { info with ranges := parsed, type := type })

/-! ## Reading an accepted text -/

/-- A text that keeps `core` when white space is trimmed. -/
structure Trims (core : Bytes) : Prop where
  nonempty : core ≠ []
  first : ∀ char, core.head? = some char → isFlanking char = false
  last : ∀ char, core.getLast? = some char → isFlanking char = false

variable {char : Byte}

theorem isFlanking_of_isBlank (hblank : isBlank char = true) :
    isFlanking char = true := by
  simp only [isBlank, Bool.or_eq_true, decide_eq_true_eq] at hblank
  rcases hblank with rfl | rfl <;> decide

theorem isFlanking_of_isDigit (hdigit : isDigit char = true) :
    isFlanking char = false := by
  simp only [isDigit, Bool.and_eq_true, decide_eq_true_eq,
    UInt8.le_iff_toNat_le, UInt8.reduceToNat] at hdigit
  simp only [isFlanking, ← UInt8.toNat_inj, UInt8.reduceToNat,
    Bool.or_eq_false_iff, decide_eq_false_iff_not]
  omega

theorem dropWhile_append_core {front core : Bytes} (hcore : Trims core)
    (hfront : ∀ char ∈ front, isBlank char = true) (rest : Bytes) :
    (front ++ (core ++ rest)).dropWhile isFlanking = core ++ rest := by
  rw [dropWhile_append_of_pos
    fun char hchar => isFlanking_of_isBlank (hfront char hchar)]
  obtain ⟨char, tail, rfl⟩ := exists_cons_of_ne_nil hcore.nonempty
  simp [hcore.first char rfl]

theorem rdropWhile_append_core {core back : Bytes} (hcore : Trims core)
    (hback : ∀ char ∈ back, isBlank char = true) (rest : Bytes) :
    (rest ++ (core ++ back)).rdropWhile isFlanking = rest ++ core := by
  obtain ⟨init, char, rfl⟩ : ∃ init char, core = init ++ [char] :=
    ⟨_, _, (dropLast_append_getLast hcore.nonempty).symm⟩
  rw [rdropWhile]
  simp only [reverse_append, reverse_singleton, append_assoc]
  rw [dropWhile_append_of_pos fun other hother =>
    isFlanking_of_isBlank (hback other (mem_reverse.1 hother))]
  simp [hcore.last char (by simp)]

theorem trimFlankingWhitespace_core {front core back : Bytes}
    (hcore : Trims core) (hfront : ∀ char ∈ front, isBlank char = true)
    (hback : ∀ char ∈ back, isBlank char = true) :
    trimFlankingWhitespace (front ++ (core ++ back)) = core := by
  rw [trimFlankingWhitespace, dropWhile_append_core hcore hfront]
  simpa using rdropWhile_append_core hcore hback []

/-- Trimming keeps a front that has no white space. -/
theorem take_rdropWhile {front : Bytes} (hne : front ≠ [])
    (hfront : ∀ char ∈ front, isFlanking char = false) (back : Bytes) :
    ((front ++ back).rdropWhile isFlanking).take front.length = front := by
  have hkeep : front.reverse.dropWhile isFlanking = front.reverse := by
    obtain ⟨char, rest, hcons⟩ :=
      exists_cons_of_ne_nil (reverse_ne_nil_iff.2 hne)
    have hchar := hfront char (mem_reverse.1 (by simp [hcons]))
    simp [hcons, hchar]
  rw [rdropWhile, reverse_append, dropWhile_append, hkeep]
  split
  · simp
  · simp

/-- A day name is read alike by both programs. -/
theorem weekdayOf_append {day : Bytes} {index : ℕ} (hlength : day.length = 3)
    (hindex : quotaDayIndex day = some index) {rest : Bytes}
    (hrest : rest ≠ []) : weekdayOf (day ++ rest) = some index := by
  have hlong : 3 < (day ++ rest).length := by
    have hpositive := length_pos_of_ne_nil hrest
    rw [length_append]
    omega
  rw [weekdayOf, if_pos hlong, ← hindex, quotaDayIndex]
  apply findIdx?_congr
  intro name hname
  have hkey : ∀ name ∈ quotaDaynames, name.length = 3 ∧
      name.map toLower = name := by
    decide
  obtain ⟨hnameLength, hlower⟩ := hkey name hname
  rw [startsNoCase, hnameLength, hlower, toLowercase, ← hlength,
    take_left, take_length]

/-- No day name begins with a digit. -/
theorem weekdayOf_eq_none (hdigit : isDigit char = true)
    (text : Bytes) : weekdayOf (char :: text) = none := by
  rw [weekdayOf]
  split
  swap
  · rfl
  rw [findIdx?_eq_none_iff]
  intro day hday
  have hletter : ∀ day ∈ dayPrefixes, day.head?.any isDigit = false := by
    decide
  rw [decide_eq_false_iff_not]
  intro hsame
  have hlower : toLower char = char := by
    simp only [isDigit, Bool.and_eq_true, decide_eq_true_eq,
      UInt8.le_iff_toNat_le, UInt8.reduceToNat] at hdigit
    rw [toLower, if_neg]
    simp only [UInt8.le_iff_toNat_le, UInt8.reduceToNat]
    omega
  have hfirst := hletter day hday
  rw [← hsame, toLowercase, take_succ_cons, map_cons, hlower,
    head?_cons, Option.any_some, hdigit] at hfirst
  cases hfirst

variable {part : Bytes}

theorem scanNumber_part (hpart : IsPart part) :
    scanNumber 10 part.length part = some ((valueOf 10 part : ℤ), []) := by
  have hscan := scanNumber_digits hpart.nonempty
    (fun char hchar => (isDigitOf_ten char).trans (hpart.digits char hchar))
    (by simp : ∀ char, ([] : Bytes).head? = some char →
      isDigitOf 10 char = false)
    (Nat.le_refl _)
  simpa using hscan

theorem strtoul_part (hpart : IsPart part) :
    strtoul part = UInt64.ofNat (valueOf 10 part) := by
  have hsmall := hpart.value_lt
  rw [strtoul, scanNumber_part hpart]
  simp only [Int.natAbs_natCast]
  rw [if_neg (by omega)]
  exact congrArg UInt64.ofNat (by omega)

theorem addParts_cons (tmp seconds multiple : UInt64)
    (hpart : IsPart part) (parts : List Bytes) :
    addParts tmp seconds multiple (part :: parts) =
      addParts (UInt64.ofNat (valueOf 10 part))
        (seconds + UInt64.ofNat (valueOf 10 part) * multiple) (multiple / 60)
        parts := by
  simp [addParts, scanNumber_part hpart, strtoul_part hpart]

theorem toLong_eq {value : UInt64} {number : ℕ} (hvalue : value.toNat = number)
    (hsmall : number < 2 ^ 63) : toLong value = number := by
  have hbits : value.toBitVec.toNat = number := hvalue
  rw [toLong, BitVec.toInt_eq_toNat_of_lt (by omega), hbits]

theorem toNat_add_part {seconds : UInt64} {multiple : ℕ}
    (hseconds : seconds.toNat ≤ 2000000) (hpart : IsPart part)
    (hmultiple : multiple ≤ 3600) :
    (seconds + UInt64.ofNat (valueOf 10 part) * UInt64.ofNat multiple).toNat =
      seconds.toNat + valueOf 10 part * multiple := by
  have hproduct : valueOf 10 part * multiple ≤ 100 * 3600 :=
    Nat.mul_le_mul hpart.value_lt.le hmultiple
  have hvalue := hpart.value_lt
  rw [UInt64.toNat_add, UInt64.toNat_mul, UInt64.toNat_ofNat',
    UInt64.toNat_ofNat', Nat.mod_eq_of_lt (by omega : valueOf 10 part < 2 ^ 64),
    Nat.mod_eq_of_lt (by omega : multiple < 2 ^ 64),
    Nat.mod_eq_of_lt (by omega : valueOf 10 part * multiple < 2 ^ 64),
    Nat.mod_eq_of_lt (by omega)]

/-- The loop divides the weight of a part by 60 from one part to the next. -/
theorem toLong_addParts_iterate {parts : List Bytes}
    (hparts : ∀ part ∈ parts, IsPart part) (tmp : UInt64) {seconds : UInt64}
    {multiple : ℕ} (hmultiple : multiple ≤ 3600)
    (hseconds : seconds.toNat + 360000 * parts.length ≤ 2360000) :
    toLong (addParts tmp seconds (UInt64.ofNat multiple) parts) =
      seconds.toNat + partSeconds
        ((List.iterate (· / 60) multiple parts.length).map Nat.cast) parts := by
  induction parts generalizing tmp seconds multiple with
  | nil =>
    rw [addParts, toLong_eq rfl (by simp at hseconds; omega)]
    simp [partSeconds]
  | cons part parts ih =>
    rw [forall_mem_cons] at hparts
    rw [length_cons] at hseconds
    have hfirst := toNat_add_part (by omega : seconds.toNat ≤ 2000000) hparts.1
      hmultiple
    have hproduct : valueOf 10 part * multiple ≤ 100 * 3600 :=
      Nat.mul_le_mul hparts.1.value_lt.le hmultiple
    have hnext : UInt64.ofNat multiple / 60 = UInt64.ofNat (multiple / 60) := by
      rw [← UInt64.toNat_inj, UInt64.toNat_div, UInt64.toNat_ofNat',
        UInt64.toNat_ofNat', Nat.mod_eq_of_lt (by omega),
        Nat.mod_eq_of_lt (by omega)]
      rfl
    rw [addParts_cons _ _ _ hparts.1, hnext, ih hparts.2 _ (by omega)
      (by omega), hfirst, length_cons, List.iterate, map_cons, partSeconds_cons]
    push_cast
    ring

/-- Up to three parts add up to the seconds they stand for. -/
theorem toLong_addParts {parts : List Bytes} (tmp : UInt64) {seconds : UInt64}
    (hlength : parts.length ≤ 3) (hparts : ∀ part ∈ parts, IsPart part)
    (hseconds : seconds.toNat ≤ 1000000) :
    toLong (addParts tmp seconds (60 * 60) parts) =
      seconds.toNat + partSeconds [3600, 60, 1] parts := by
  have hhour : (60 * 60 : UInt64) = UInt64.ofNat 3600 := rfl
  rw [hhour, toLong_addParts_iterate hparts tmp le_rfl (by omega)]
  congr 1
  match parts, hlength with
  | [], _ => rfl
  | [_], _ => rfl
  | [_, _], _ => rfl
  | [_, _, _], _ => rfl

section Clock

variable {weekly : Bool} {text : Bytes} {value : ℤ} {front day gap : Bytes}
  {parts : List Bytes} {tail back : Bytes}

/-- The digits and colons of a clock time. -/
def clockBody (parts : List Bytes) (tail : Bytes) : Bytes :=
  [58].intercalate parts ++ tail

variable (hclock : IsClock weekly text value front day gap parts tail back)
include hclock

theorem exists_clockBody_cons :
    ∃ char rest, clockBody parts tail = char :: rest ∧ isDigit char = true := by
  obtain ⟨part, others, hparts⟩ := exists_cons_of_ne_nil hclock.parts_ne
  have hpart := hclock.parts_digits part (by simp [hparts])
  obtain ⟨char, rest, hchars⟩ := exists_cons_of_ne_nil hpart.nonempty
  refine ⟨char, rest ++ (others.flatMap fun part => 58 :: part) ++ tail, ?_,
    hpart.digits char (by simp [hchars])⟩
  rw [clockBody, hparts, intercalate_cons, hchars]
  simp

theorem isFlanking_of_mem_clockBody :
    ∀ char ∈ clockBody parts tail, isFlanking char = false := by
  intro char hchar
  rw [clockBody, mem_append, mem_intercalate] at hchar
  rcases hchar with (⟨part, hpart, hchar⟩ | ⟨rfl, -⟩) | hchar
  · exact isFlanking_of_isDigit
      ((hclock.parts_digits part hpart).digits char hchar)
  · rfl
  · rcases hclock.tail_eq with rfl | rfl
    · cases hchar
    · rw [mem_singleton.1 hchar]
      rfl

omit hclock in
theorem isFlanking_of_toLower
    (hlower : isFlanking (toLower char) = false) : isFlanking char = false := by
  rw [Bool.eq_false_iff]
  intro hflanking
  have hsmall : toLower char = char := by
    simp only [isFlanking, Bool.or_eq_true, decide_eq_true_eq] at hflanking
    rcases hflanking with ((rfl | rfl) | rfl) | rfl <;> rfl
  rw [hsmall, hflanking] at hlower
  cases hlower

omit hclock in
/-- A letter of a day name is no white space. -/
theorem isFlanking_of_mem_day {index : ℕ} (hlength : day.length = 3)
    (hindex : quotaDayIndex day = some index) :
    ∀ char ∈ day, isFlanking char = false := by
  obtain ⟨name, hname, hsame⟩ := exists_dayname hlength hindex
  have hletters : ∀ name ∈ quotaDaynames, ∀ char ∈ name.map toLower,
      isFlanking char = false := by
    decide
  intro char hchar
  exact isFlanking_of_toLower (hletters name hname (toLower char)
    (hsame ▸ mem_map_of_mem hchar))

/-- The text of a clock time without the blanks around it. -/
def clockCore (day gap : Bytes) (parts : List Bytes) (tail : Bytes) : Bytes :=
  day ++ (gap ++ clockBody parts tail)

theorem trims_clockCore : Trims (clockCore day gap parts tail) := by
  obtain ⟨first, rest, hbody, hdigit⟩ := exists_clockBody_cons hclock
  have hplain := isFlanking_of_mem_clockBody hclock
  refine ⟨by simp [clockCore, hbody], ?_, ?_⟩
  · intro char hchar
    obtain ⟨secs, hday, -⟩ := hclock.value_eq
    cases weekly with
    | false =>
      obtain ⟨rfl, rfl, -⟩ := hday
      apply hplain
      rw [clockCore, nil_append, nil_append] at hchar
      exact mem_of_head? hchar
    | true =>
      obtain ⟨hlength, index, hindex, -⟩ := hday
      obtain ⟨letter, letters, rfl⟩ := exists_cons_of_length_eq_add_one hlength
      apply isFlanking_of_mem_day hlength hindex
      have hletter : letter = char := by simpa [clockCore] using hchar
      simp [hletter]
  · intro char hchar
    apply hplain
    have hne : clockBody parts tail ≠ [] := by simp [hbody]
    rw [clockCore, ← append_assoc, getLast?_append_of_ne_nil _ hne] at hchar
    exact mem_of_getLast? hchar

theorem words_clockBody : words 58 (clockBody parts tail) = parts := by
  apply words_intercalate
  · exact fun part hpart => (hclock.parts_digits part hpart).nonempty
  · intro part hpart hcolon
    have hdigit := (hclock.parts_digits part hpart).digits 58 hcolon
    cases hdigit
  · exact hclock.tail_eq

omit hclock

/-- What `rc` has read as a clock time is the same time to the match. -/
theorem parseTime_clockCore
    (hclock : IsClock weekly text value front day gap parts tail back) :
    toLong (parseTime stale (clockCore day gap parts tail)) = value := by
  obtain ⟨first, rest, hbody, hdigit⟩ := exists_clockBody_cons hclock
  have hne : clockBody parts tail ≠ [] := by simp [hbody]
  obtain ⟨secs, hday, rfl⟩ := hclock.value_eq
  have hunblank : (clockCore day gap parts tail).dropWhile isBlank =
      clockCore day gap parts tail := by
    have htrims := trims_clockCore hclock
    obtain ⟨char, others, hcons⟩ := exists_cons_of_ne_nil htrims.nonempty
    have hflanking := htrims.first char (by rw [hcons]; rfl)
    have hblank : isBlank char = false := by
      rw [Bool.eq_false_iff]
      intro hblank
      rw [isFlanking_of_isBlank hblank] at hflanking
      cases hflanking
    simp [hcons, hblank]
  cases weekly with
  | false =>
    obtain ⟨rfl, rfl, rfl⟩ := hday
    have hcore : clockCore [] [] parts tail = clockBody parts tail := rfl
    have hnone : weekdayOf (clockBody parts tail) = none := by
      rw [hbody]
      exact weekdayOf_eq_none hdigit rest
    rw [hcore] at hunblank ⊢
    simp only [parseTime, hunblank, hnone, splitOnSeparators,
      words_clockBody hclock]
    rw [toLong_addParts _ hclock.parts_length hclock.parts_digits (by simp)]
    simp
  | true =>
    obtain ⟨hlength, index, hindex, rfl⟩ := hday
    have hindexLt : index < 7 := (findIdx?_eq_some_iff_getElem.1 hindex).1
    have hsome := weekdayOf_append hlength hindex
      (by simp [hne] : gap ++ clockBody parts tail ≠ [])
    have hdrop : (clockCore day gap parts tail).drop 3 =
        gap ++ clockBody parts tail := by
      rw [clockCore, ← hlength, drop_left]
    have hgap : ∀ char ∈ gap, (!isDigit char) = true := by
      intro char hchar
      have hblank := hclock.blank char (by simp [hchar])
      simp only [isBlank, Bool.or_eq_true, decide_eq_true_eq] at hblank
      rcases hblank with rfl | rfl <;> rfl
    have hskip : (gap ++ clockBody parts tail).dropWhile
        (fun char => !isDigit char) = clockBody parts tail := by
      rw [dropWhile_append_of_pos hgap, hbody]
      simp [hdigit]
    rw [← clockCore] at hsome
    simp only [parseTime, hunblank, hsome, hdrop, hskip, splitOnSeparators,
      words_clockBody hclock]
    have hstart : (UInt64.ofNat index * 60 * 60 * 24).toNat =
        index * 86400 := by
      simp only [UInt64.toNat_mul, UInt64.toNat_ofNat', UInt64.reduceToNat]
      omega
    rw [toLong_addParts _ hclock.parts_length hclock.parts_digits
      (by omega), hstart, quotaDaySecs]
    rfl

end Clock

theorem IsClock.text_eq_core {weekly : Bool} {text : Bytes} {value : ℤ}
    {front day gap : Bytes} {parts : List Bytes} {tail back : Bytes}
    (hclock : IsClock weekly text value front day gap parts tail back) :
    text = front ++ (clockCore day gap parts tail ++ back) := by
  rw [hclock.text_eq, clockCore, clockBody]
  simp only [append_assoc]

/-- The two ends of a range are found again. -/
theorem parsePiece_rangeText {weekly : Bool}
    {piece : Bytes} {range : Range} (hpiece : RangeText weekly piece range) :
    parsePiece stale piece = some range := by
  obtain ⟨left, right, rfl, hleftDash, hrightDash, hleft, hright⟩ := hpiece
  obtain ⟨front, day, gap, parts, tail, back, hstart⟩ := hleft
  obtain ⟨front', day', gap', parts', tail', back', hstop⟩ := hright
  have hstartBlank := hstart.blank
  have hstopBlank := hstop.blank
  simp only [forall_mem_append] at hstartBlank hstopBlank
  have hstartTrims := trims_clockCore hstart
  have hstopTrims := trims_clockCore hstop
  have hstartTime := parseTime_clockCore stale hstart
  have hstopTime := parseTime_clockCore stale hstop
  rw [IsClock.text_eq_core hstart] at hleftDash ⊢
  rw [IsClock.text_eq_core hstop] at hrightDash ⊢
  generalize clockCore day gap parts tail = start at *
  generalize clockCore day' gap' parts' tail' = stop at *
  have htrim : trimFlankingWhitespace
      (front ++ (start ++ back) ++ 45 :: (front' ++ (stop ++ back'))) =
        (start ++ back) ++ 45 :: (front' ++ stop) := by
    have hassoc : front ++ (start ++ back) ++
        45 :: (front' ++ (stop ++ back')) =
          front ++ (start ++ (back ++ 45 :: (front' ++ (stop ++ back')))) := by
      simp
    have hend := rdropWhile_append_core hstopTrims hstopBlank.2
      (start ++ back ++ 45 :: front')
    rw [trimFlankingWhitespace, hassoc,
      dropWhile_append_core hstartTrims hstartBlank.1.1]
    simpa using hend
  simp only [mem_append, not_or] at hleftDash hrightDash
  have hwords : words 45 ((start ++ back) ++ 45 :: (front' ++ stop)) =
      [start ++ back, front' ++ stop] := by
    rw [words_append_cons (by simp [hstartTrims.nonempty])
      (by simp [hleftDash.2]), words_of_not_mem (by simp [hstopTrims.nonempty])
      (by simp [hrightDash.1, hrightDash.2.1])]
  have hstartTrim : trimFlankingWhitespace (start ++ back) = start := by
    simpa using trimFlankingWhitespace_core hstartTrims
      (by simp : ∀ char ∈ ([] : Bytes), isBlank char = true) hstartBlank.2
  have hstopTrim : trimFlankingWhitespace (front' ++ stop) = stop := by
    simpa using trimFlankingWhitespace_core hstopTrims hstopBlank.1.1
      (by simp : ∀ char ∈ ([] : Bytes), isBlank char = true)
  simp only [parsePiece, splitOnSeparators, htrim, hwords, take_succ_cons,
    take_zero, hstartTrim, hstopTrim, hstartTime, hstopTime]

theorem mapM_eq_some_of_forall₂ {α β : Type*} {f : α → Option β}
    {values : List α} {results : List β}
    (hresults : Forall₂ (fun value result => f value = some result)
      values results) : values.mapM f = some results := by
  induction hresults with
  | nil => rfl
  | cons hhead _ ih => simp [mapM_cons, hhead, ih]

/-- The pieces of an accepted list are read as the ranges that `rc` has
read. -/
theorem mapM_parsePiece {weekly : Bool} {spec : Bytes} {ranges : List Range}
    (hpieces : Forall₂ (RangeText weekly) (spec.splitOn 44) ranges) :
    (splitOnSeparators spec 44 none).mapM (parsePiece stale) = some ranges := by
  have hwords : words 44 spec = spec.splitOn 44 := by
    apply words_eq_splitOn
    intro piece hpiece
    obtain ⟨range, -, front, back, rfl, -⟩ :=
      exists_mem_of_forall₂ hpieces hpiece
    simp
  rw [splitOnSeparators, hwords]
  exact mapM_eq_some_of_forall₂
    (hpieces.imp fun piece range => parsePiece_rangeText stale)

/-! ## The sort -/

/-- Starts that an `int` holds. -/
def SmallStart (range : Range) : Prop :=
  0 ≤ range.1 ∧ range.1 < 2 ^ 31

theorem toInt_eq {value : ℤ} (hlow : 0 ≤ value) (hhigh : value < 2 ^ 31) :
    toInt value = value := by
  rw [toInt, BitVec.toInt_ofInt]
  exact Int.bmod_eq_of_le (by omega) (by omega)

/-- The search knows the leftmost least start of the ranges it has seen. -/
theorem findNextStart_spec {seen ranges : List Range} {index : ℕ}
    {value : Range} (hseen : LeastAt Prod.fst seen index value)
    (hsmall : ∀ range ∈ seen ++ ranges, SmallStart range) :
    ∃ least, LeastAt Prod.fst (seen ++ ranges)
      (findNextStart value.1 index seen.length ranges) least := by
  induction ranges generalizing seen index value with
  | nil => exact ⟨value, by simpa [findNextStart] using hseen⟩
  | cons range ranges ih =>
    have hvalue := hsmall value (by
      simp [mem_of_getElem? hseen.value_at])
    have hrange := hsmall range (by simp)
    have hlength : (seen ++ [range]).length = seen.length + 1 := by simp
    have happend : seen ++ range :: ranges = (seen ++ [range]) ++ ranges := by
      simp
    rw [happend] at hsmall ⊢
    rw [findNextStart]
    split
    · next hless =>
      have hlt : range.1 < value.1 := by
        rcases hless with hnegative | hless
        · exact absurd hvalue.1 (not_le.2 hnegative)
        · exact hless
      rw [toInt_eq hrange.1 hrange.2, ← hlength]
      refine ih ⟨by simp, ?_, ?_⟩ hsmall
      · intro other hother
        rcases mem_append.1 hother with hother | hother
        · exact hlt.le.trans (hseen.least other hother)
        · rw [mem_singleton.1 hother]
      · intro place other hplace hother
        rw [getElem?_append_left hplace] at hother
        exact hlt.trans_le
          (hseen.least other (mem_of_getElem? hother))
    · next hnot =>
      rw [not_or, not_lt, not_lt] at hnot
      have hindex : index < seen.length :=
        (List.getElem?_eq_some_iff.1 hseen.value_at).1
      rw [← hlength]
      refine ih ⟨?_, ?_, ?_⟩ hsmall
      · rw [getElem?_append_left hindex]
        exact hseen.value_at
      · intro other hother
        rcases mem_append.1 hother with hother | hother
        · exact hseen.least other hother
        · rw [mem_singleton.1 hother]
          exact hnot.2
      · intro place other hplace hother
        rw [getElem?_append_left (hplace.trans hindex)] at hother
        exact hseen.leftmost place other hplace hother

theorem finds_nextStartIndex : Finds Prod.fst SmallStart nextStartIndex := by
  intro first others hsmall
  have hfirst := hsmall first mem_cons_self
  have hseen : LeastAt Prod.fst [first] 0 first :=
    ⟨rfl, by simp, by simp⟩
  have hspec := findNextStart_spec hseen hsmall
  rw [nextStartIndex, findNextStart, if_pos (.inl (by decide)),
    toInt_eq hfirst.1 hfirst.2]
  exact hspec

end Tomato64.Timerange
