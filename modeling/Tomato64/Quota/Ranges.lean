import Tomato64.Core.Scan
import Tomato64.Core.Split
import Mathlib.Algebra.BigOperators.Group.List.Basic
import Mathlib.Algebra.Order.BigOperators.Group.List
import Mathlib.Algebra.Order.Ring.Int

/-!
# The range lists of a quota's active window

A quota is in force at the times of day, or of the week, that its record
lists.  `rc` reads such a list itself before it hands the text to the
`timerange` match, and refuses whatever it cannot read (`quotas.c`).

The second half of this module says what an accepted text looks like, in terms
that do not depend on the reader.
-/

namespace Tomato64.QuotaRanges

open List Scan Split Text

def quotaDaySecs : ℤ := 86400
def quotaWeekSecs : ℤ := 7 * quotaDaySecs
def quotaRangeMax : ℕ := 12

/-- The seconds that a range list speaks about. -/
def span (weekly : Bool) : ℤ :=
  if weekly then quotaWeekSecs else quotaDaySecs

def quotaDaynames : List Bytes :=
  ["sun", "mon", "tue", "wed", "thu", "fri", "sat"].map bytes

/-- The index of a three-letter day name at the front of the text. -/
def quotaDayIndex (text : Bytes) : Option ℕ :=
  quotaDaynames.findIdx? fun day => startsNoCase day text

def isBlank (char : Byte) : Bool :=
  char = 32 || char = 9

/-- `HH`, `HH:MM` and `HH:MM:SS`: the seconds and the text behind them. -/
def clockParts : List ℤ → ℤ → Bytes → Option (ℤ × Bytes)
  | [], secs, text => some (secs, text)
  | mult :: mults, secs, text =>
    if (text.head?.map isDigit).getD false then
      match strtol text with
      | none => none
      | some (part, rest) =>
        if 2 < text.length - rest.length then none
        else
          match rest with
          | 58 :: behind => clockParts mults (secs + part * mult) behind
          | _ => some (secs + part * mult, rest)
    else none

/-- The day in front of a clock time of the week: the seconds before it and
the text behind it. -/
def clockDay (weekly : Bool) (text : Bytes) : Option (ℤ × Bytes) :=
  if weekly then
    (quotaDayIndex text).map fun (day : ℕ) =>
      (day * quotaDaySecs, (text.drop 3).dropWhile isBlank)
  else some (0, text)

/-- One end of a range, in seconds from the start of the day or the week. -/
def quotaParseClock (text : Bytes) (weekly : Bool) : Option ℤ :=
  match clockDay weekly (text.dropWhile isBlank) with
  | none => none
  | some (day, behind) =>
    match clockParts [3600, 60, 1] day behind with
    | none => none
    | some (secs, rest) =>
      if rest.dropWhile isBlank = [] ∧ secs ≤ span weekly then some secs
      else none

/-- The first and the last second of a range.  One that ends before it starts
runs past the end of the span. -/
abbrev Range := ℤ × ℤ

/-- A piece with exactly one dash, hence exactly two endpoints. -/
def readRange (weekly : Bool) (piece : Bytes) : Option Range :=
  match splitFirst 45 piece with
  | none => none
  | some (front, back) =>
    if 45 ∈ back then none
    else
      match quotaParseClock front weekly, quotaParseClock back weekly with
      | some start, some stop =>
        if start = stop then none else some (start, stop)
      | _, _ => none

/-- The loop over the pieces, after `count` of them. -/
def readRanges (weekly : Bool) : ℕ → List Bytes → Option (List Range)
  | _, [] => some []
  | count, piece :: pieces =>
    if quotaRangeMax ≤ count then none
    else
      match readRange weekly piece, readRanges weekly (count + 1) pieces with
      | some range, some ranges => some (range :: ranges)
      | _, _ => none

def listedRanges (spec : Bytes) (weekly : Bool) : Option (List Range) :=
  if 320 ≤ spec.length then none else readRanges weekly 0 (spec.splitOn 44)

/-- The end of a range, moved behind its start. -/
def unwrapEnd (span : ℤ) (range : Range) : ℤ :=
  if range.2 < range.1 then range.2 + span else range.2

/-- The overlap test that `quotas.c` reproduces from `libxt_timerange.c`. -/
def overlap (span : ℤ) (left right : Range) : Bool :=
  left.1 < unwrapEnd span right && unwrapEnd span left > right.1

/-- The two loops over all pairs of different places. -/
def overlapFound (span : ℤ) (ranges : List Range) : Bool :=
  ranges.zipIdx.any fun left => ranges.zipIdx.any fun right =>
    right.2 ≠ left.2 && overlap span left.1 right.1

def covered (span : ℤ) (ranges : List Range) : ℤ :=
  (ranges.map fun range => unwrapEnd span range - range.1).sum

def quotaValidRanges (spec : Bytes) (weekly : Bool) : Bool :=
  match listedRanges spec weekly with
  | none => false
  | some ranges =>
    ranges ≠ [] && !overlapFound (span weekly) ranges &&
      covered (span weekly) ranges < span weekly

/-! ## Accepted lists -/

/-- What the checks leave of a list of ranges. -/
structure Accepted (span : ℤ) (ranges : List Range) : Prop where
  nonempty : ranges ≠ []
  count : ranges.length ≤ quotaRangeMax
  bounds : ∀ range ∈ ranges, 0 ≤ range.1 ∧ range.1 ≤ span ∧ 0 ≤ range.2 ∧
    range.2 ≤ span
  proper : ∀ range ∈ ranges, range.1 ≠ range.2
  disjoint : ranges.Pairwise fun left right => overlap span left right = false
  covered_lt : covered span ranges < span

theorem overlap_comm (span : ℤ) (left right : Range) :
    overlap span left right = overlap span right left := by
  rw [overlap, overlap, Bool.and_comm]

theorem overlap_eq_false {span : ℤ} {left right : Range} :
    overlap span left right = false ↔
      unwrapEnd span right ≤ left.1 ∨ unwrapEnd span left ≤ right.1 := by
  rw [overlap, Bool.and_eq_false_iff, decide_eq_false_iff_not,
    decide_eq_false_iff_not, not_lt, not_lt]

theorem overlapFound_eq_false {span : ℤ} {ranges : List Range} :
    overlapFound span ranges = false ↔
      ranges.Pairwise fun left right => overlap span left right = false := by
  rw [pairwise_iff_getElem, overlapFound, any_eq_false]
  constructor
  · intro hfound first second hfirst hsecond hless
    have hpair := hfound (ranges[first], first)
      (mem_zipIdx_iff_getElem?.2 (by simp [hfirst]))
    rw [Bool.not_eq_true, any_eq_false] at hpair
    have hboth := hpair (ranges[second], second)
      (mem_zipIdx_iff_getElem?.2 (by simp [hsecond]))
    simpa [hless.ne'] using hboth
  · rintro hpairs ⟨left, first⟩ hleft
    rw [Bool.not_eq_true, any_eq_false]
    rintro ⟨right, second⟩ hright
    rw [mem_zipIdx_iff_getElem?] at hleft hright
    simp only at hleft hright ⊢
    obtain ⟨hfirst, rfl⟩ := List.getElem?_eq_some_iff.1 hleft
    obtain ⟨hsecond, rfl⟩ := List.getElem?_eq_some_iff.1 hright
    rcases lt_trichotomy first second with hless | rfl | hless
    · simp [hpairs first second hfirst hsecond hless]
    · simp
    · rw [overlap_comm]
      simp [hpairs second first hsecond hfirst hless]

/-! ## Accepted clock times -/

/-- One or two digits. -/
structure IsPart (part : Bytes) : Prop where
  nonempty : part ≠ []
  short : part.length ≤ 2
  digits : ∀ char ∈ part, isDigit char = true

/-- The seconds that the parts of a clock time stand for. -/
def partSeconds : List ℤ → List Bytes → ℤ
  | mult :: mults, part :: parts =>
    valueOf 10 part * mult + partSeconds mults parts
  | _, _ => 0

theorem partSeconds_cons (mult : ℤ) (mults : List ℤ) (part : Bytes)
    (parts : List Bytes) :
    partSeconds (mult :: mults) (part :: parts) =
      valueOf 10 part * mult + partSeconds mults parts :=
  rfl

theorem IsPart.value_lt {part : Bytes} (hpart : IsPart part) :
    valueOf 10 part < 100 := by
  have hvalue := valueOf_lt fun char hchar =>
    (isDigitOf_ten char).trans (hpart.digits char hchar)
  calc valueOf 10 part < 10 ^ part.length := hvalue
    _ ≤ 10 ^ 2 := Nat.pow_le_pow_right (by decide) hpart.short
    _ = 100 := rfl

theorem partSeconds_nonneg {mults : List ℤ} (hmults : ∀ mult ∈ mults, 0 ≤ mult)
    (parts : List Bytes) : 0 ≤ partSeconds mults parts := by
  induction mults generalizing parts with
  | nil => simp [partSeconds]
  | cons mult mults ih =>
    rw [forall_mem_cons] at hmults
    cases parts with
    | nil => simp [partSeconds]
    | cons part parts =>
      have hrest := ih hmults.2 parts
      have hpart := mul_nonneg (Int.natCast_nonneg (valueOf 10 part))
        hmults.1
      rw [partSeconds]
      omega

variable {text : Bytes}

/-- A number is read up to the first character that is no digit. -/
theorem strtol_of_digit (hfirst : (text.head?.map isDigit).getD false = true) :
    text.takeWhile isDigit ≠ [] ∧ strtol text =
      some (max longMin (min longMax (valueOf 10 (text.takeWhile isDigit))),
        text.dropWhile isDigit) := by
  have hne : text.takeWhile isDigit ≠ [] := by
    cases text with
    | nil => simp at hfirst
    | cons char text =>
      have hchar : isDigit char = true := by simpa using hfirst
      simp [hchar]
  have hdigits : ∀ char ∈ text.takeWhile isDigit, isDigitOf 10 char = true :=
    fun char hchar => (isDigitOf_ten char).trans (mem_takeWhile_imp hchar)
  have hstop : ∀ char, (text.dropWhile isDigit).head? = some char →
      isDigitOf 10 char = false := by
    intro char hchar
    rw [isDigitOf_ten]
    have hnot := head?_dropWhile_not isDigit text
    simpa [hchar] using hnot
  have hscan := scanNumber_digits hne hdigits hstop (Nat.le_refl _)
  rw [takeWhile_append_dropWhile] at hscan
  refine ⟨hne, ?_⟩
  rw [strtol, hscan]
  rfl

theorem IsPart.clamp {part : Bytes} (hpart : IsPart part) :
    max longMin (min longMax (valueOf 10 part)) = valueOf 10 part := by
  have hsmall := hpart.value_lt
  simp only [longMin, longMax]
  omega

/-- What is left of a text that one part was read from. -/
theorem strtol_part {rest : Bytes} {number : ℤ}
    (hfirst : (text.head?.map isDigit).getD false = true)
    (hread : strtol text = some (number, rest))
    (hshort : ¬ 2 < text.length - rest.length) :
    ∃ part, IsPart part ∧ text = part ++ rest ∧ number = valueOf 10 part := by
  obtain ⟨hne, hstrtol⟩ := strtol_of_digit hfirst
  rw [hstrtol] at hread
  obtain ⟨rfl, rfl⟩ := hread
  have htext : text.takeWhile isDigit ++ text.dropWhile isDigit = text :=
    takeWhile_append_dropWhile
  have hlength := congrArg List.length htext
  rw [length_append] at hlength
  have hpart : IsPart (text.takeWhile isDigit) :=
    ⟨hne, by omega, fun char hchar => mem_takeWhile_imp hchar⟩
  exact ⟨_, hpart, htext.symm, hpart.clamp⟩

/-- The loop reads one to three parts between colons.  A colon behind the
third part is skipped. -/
theorem clockParts_eq_some {mults : List ℤ} {secs value : ℤ}
    {rest : Bytes} (hmults : mults ≠ [])
    (hread : clockParts mults secs text = some (value, rest)) :
    ∃ parts tail, parts ≠ [] ∧ parts.length ≤ mults.length ∧
      (∀ part ∈ parts, IsPart part) ∧ (tail = [] ∨ tail = [58]) ∧
      text = [58].intercalate parts ++ (tail ++ rest) ∧
      value = secs + partSeconds mults parts := by
  induction mults generalizing secs text with
  | nil => exact absurd rfl hmults
  | cons mult mults ih =>
    rw [clockParts] at hread
    split at hread
    swap
    · cases hread
    next hfirst =>
    split at hread
    · cases hread
    next number behind hnumber =>
    split at hread
    · cases hread
    next hshort =>
    obtain ⟨part, hpart, rfl, rfl⟩ := strtol_part hfirst hnumber hshort
    split at hread
    · next behind =>
      cases mults with
      | nil =>
        cases hread
        refine ⟨[part], [58], by simp, by simp,
          by simpa using hpart, .inr rfl, by simp, ?_⟩
        simp [partSeconds]
      | cons second mults =>
        obtain ⟨parts, tail, hne, hlength, hparts, htail,
          rfl, rfl⟩ := ih (by simp) hread
        obtain ⟨next, others, rfl⟩ := exists_cons_of_ne_nil hne
        refine ⟨part :: next :: others, tail, by simp, by simpa using hlength,
          forall_mem_cons.2 ⟨hpart, hparts⟩, htail, ?_, ?_⟩
        · rw [intercalate_cons_cons]
          simp
        · rw [partSeconds_cons mult]
          omega
    · cases hread
      refine ⟨[part], [], by simp, by simp,
        by simpa using hpart, .inl rfl, by simp, ?_⟩
      simp [partSeconds]

/-- The day in front of a clock time and the seconds before that day. -/
def IsDay (weekly : Bool) (day gap : Bytes) (secs : ℤ) : Prop :=
  if weekly then
    day.length = 3 ∧ ∃ index, quotaDayIndex day = some index ∧
      secs = index * quotaDaySecs
  else day = [] ∧ gap = [] ∧ secs = 0

/-- A clock time taken apart: blanks, the day, blanks, the parts between
colons, a colon that may be left over, and blanks. -/
structure IsClock (weekly : Bool) (text : Bytes) (value : ℤ)
    (front day gap : Bytes) (parts : List Bytes) (tail back : Bytes) :
    Prop where
  text_eq : text =
    front ++ (day ++ (gap ++ ([58].intercalate parts ++ (tail ++ back))))
  blank : ∀ char ∈ front ++ gap ++ back, isBlank char = true
  parts_ne : parts ≠ []
  parts_length : parts.length ≤ 3
  parts_digits : ∀ part ∈ parts, IsPart part
  tail_eq : tail = [] ∨ tail = [58]
  value_eq : ∃ secs, IsDay weekly day gap secs ∧
    value = secs + partSeconds [3600, 60, 1] parts

/-- Some way to take a clock time apart. -/
def ClockText (weekly : Bool) (text : Bytes) (value : ℤ) : Prop :=
  ∃ front day gap parts tail back,
    IsClock weekly text value front day gap parts tail back

theorem startsNoCase_take {key : Bytes} (hkey : key.length = 3) :
    startsNoCase key (text.take 3) = startsNoCase key text := by
  rw [startsNoCase, startsNoCase, hkey, take_take, Nat.min_self]

theorem length_of_mem_quotaDaynames :
    ∀ day ∈ quotaDaynames, day.length = 3 := by
  decide

/-- Only the first three letters name a day. -/
theorem quotaDayIndex_take (text : Bytes) :
    quotaDayIndex (text.take 3) = quotaDayIndex text := by
  rw [quotaDayIndex, quotaDayIndex]
  apply findIdx?_congr
  intro day hday
  exact startsNoCase_take (length_of_mem_quotaDaynames day hday)

theorem length_of_quotaDayIndex {index : ℕ}
    (hindex : quotaDayIndex text = some index) : 3 ≤ text.length := by
  obtain ⟨hlt, hday, -⟩ := findIdx?_eq_some_iff_getElem.1 hindex
  have hlength := congrArg List.length (of_decide_eq_true hday)
  rw [length_map, length_map, length_take,
    length_of_mem_quotaDaynames _ (getElem_mem hlt)] at hlength
  omega

/-- Three letters that name a day are those of a day name. -/
theorem exists_dayname {day : Bytes} {index : ℕ} (hlength : day.length = 3)
    (hindex : quotaDayIndex day = some index) :
    ∃ name ∈ quotaDaynames, day.map toLower = name.map toLower := by
  obtain ⟨hlt, hday, -⟩ := findIdx?_eq_some_iff_getElem.1 hindex
  have hmem := getElem_mem hlt
  have hsame := of_decide_eq_true hday
  rw [length_of_mem_quotaDaynames _ hmem, ← hlength, take_length] at hsame
  exact ⟨_, hmem, hsame⟩

variable {weekly : Bool}

theorem quotaParseClock_eq_some {value : ℤ}
    (hread : quotaParseClock text weekly = some value) :
    ClockText weekly text value ∧ 0 ≤ value ∧ value ≤ span weekly := by
  have hblank : ∀ text : Bytes, ∀ char ∈ text.takeWhile isBlank,
      isBlank char = true := fun text char hchar => mem_takeWhile_imp hchar
  have hsplit : ∀ text : Bytes,
      text.takeWhile isBlank ++ text.dropWhile isBlank = text :=
    fun text => takeWhile_append_dropWhile
  rw [quotaParseClock] at hread
  split at hread
  · cases hread
  next secs behind hday =>
  split at hread
  · cases hread
  next number rest hparts =>
  split at hread
  swap
  · cases hread
  next hend =>
  obtain ⟨hrest, hspan⟩ := hend
  cases hread
  obtain ⟨parts, tail, hne, hlength, hdigits, htail, rfl, rfl⟩ :=
    clockParts_eq_some (by simp) hparts
  have hback : ∀ char ∈ rest, isBlank char = true := by
    intro char hchar
    rw [← hsplit rest, hrest, append_nil] at hchar
    exact hblank rest char hchar
  have hseconds := partSeconds_nonneg
    (by decide : ∀ mult ∈ [3600, 60, 1], (0 : ℤ) ≤ mult) parts
  cases weekly with
  | false =>
    simp only [clockDay, Bool.false_eq_true, if_false,
      Option.some.injEq, Prod.mk.injEq] at hday
    obtain ⟨rfl, hbehind⟩ := hday
    refine ⟨⟨text.takeWhile isBlank, [], [], parts, tail, rest,
      ?_, ?_, hne, hlength, hdigits, htail, 0,
      ⟨rfl, rfl, rfl⟩, rfl⟩, by omega, hspan⟩
    · rw [nil_append, nil_append, ← hbehind, hsplit]
    · simp only [append_nil, forall_mem_append]
      exact ⟨hblank text, hback⟩
  | true =>
    simp only [clockDay, if_true, Option.map_eq_some_iff,
      Prod.mk.injEq] at hday
    obtain ⟨index, hindex, rfl, hbehind⟩ := hday
    set body := text.dropWhile isBlank with hbody
    have hdays : (0 : ℤ) ≤ index * quotaDaySecs := by
      rw [quotaDaySecs]
      omega
    refine ⟨⟨text.takeWhile isBlank, body.take 3,
      (body.drop 3).takeWhile isBlank, parts, tail, rest, ?_, ?_,
      hne, hlength, hdigits, htail, _,
      ⟨?_, index, ?_, rfl⟩, rfl⟩, by omega, hspan⟩
    · rw [← hbehind, hsplit, take_append_drop, hbody, hsplit]
    · simp only [forall_mem_append]
      exact ⟨⟨hblank text, hblank _⟩, hback⟩
    · have hlong := length_of_quotaDayIndex hindex
      simpa using hlong
    · rw [quotaDayIndex_take, hindex]

/-! ## Accepted texts -/

/-- A piece with the two ends of a range around its only dash. -/
def RangeText (weekly : Bool) (piece : Bytes) (range : Range) : Prop :=
  ∃ front back, piece = front ++ 45 :: back ∧ 45 ∉ front ∧ 45 ∉ back ∧
    ClockText weekly front range.1 ∧ ClockText weekly back range.2

theorem readRange_eq_some {piece : Bytes} {range : Range}
    (hread : readRange weekly piece = some range) :
    RangeText weekly piece range ∧ range.1 ≠ range.2 ∧
      0 ≤ range.1 ∧ range.1 ≤ span weekly ∧ 0 ≤ range.2 ∧
      range.2 ≤ span weekly := by
  rw [readRange] at hread
  split at hread
  · cases hread
  next front back hcut =>
  obtain ⟨rfl, hfront⟩ := splitFirst_eq_some_iff.1 hcut
  split at hread
  · cases hread
  next hback =>
  split at hread
  swap
  · cases hread
  next start stop hstart hstop =>
  split at hread
  · cases hread
  next hproper =>
  cases hread
  obtain ⟨hstartText, hstartBounds⟩ := quotaParseClock_eq_some hstart
  obtain ⟨hstopText, hstopBounds⟩ := quotaParseClock_eq_some hstop
  exact ⟨⟨front, back, rfl, hfront, hback, hstartText,
    hstopText⟩, hproper, hstartBounds.1, hstartBounds.2, hstopBounds⟩

theorem readRanges_eq_some {count : ℕ} {pieces : List Bytes}
    {ranges : List Range}
    (hread : readRanges weekly count pieces = some ranges) :
    Forall₂ (fun piece range => readRange weekly piece = some range)
        pieces ranges ∧
      (pieces ≠ [] → count + pieces.length ≤ quotaRangeMax) := by
  induction pieces generalizing count ranges with
  | nil =>
    cases hread
    exact ⟨.nil, by simp⟩
  | cons piece pieces ih =>
    rw [readRanges] at hread
    split at hread
    · cases hread
    next hcount =>
    split at hread
    swap
    · cases hread
    next range others hrange hothers =>
    cases hread
    obtain ⟨hrest, hlength⟩ := ih hothers
    refine ⟨.cons hrange hrest, fun _ => ?_⟩
    by_cases hnil : pieces = []
    · simp only [hnil, length_singleton]
      omega
    · have hbound := hlength hnil
      rw [length_cons]
      omega

/-- An accepted text lists its ranges one by one, and the ranges pass all
checks. -/
theorem exists_of_quotaValidRanges {spec : Bytes}
    (hvalid : quotaValidRanges spec weekly = true) :
    ∃ ranges, listedRanges spec weekly = some ranges ∧
      Accepted (span weekly) ranges ∧
      Forall₂ (RangeText weekly) (spec.splitOn 44) ranges := by
  rw [quotaValidRanges] at hvalid
  split at hvalid
  · cases hvalid
  next ranges hlisted =>
  simp only [Bool.and_eq_true, decide_eq_true_eq, Bool.not_eq_true',
    overlapFound_eq_false] at hvalid
  obtain ⟨⟨hne, hdisjoint⟩, hcovered⟩ := hvalid
  have hread := hlisted
  rw [listedRanges] at hread
  split at hread
  · cases hread
  obtain ⟨hpieces, hlength⟩ := readRanges_eq_some hread
  have hall : ∀ range ∈ ranges, range.1 ≠ range.2 ∧ 0 ≤ range.1 ∧
      range.1 ≤ span weekly ∧ 0 ≤ range.2 ∧ range.2 ≤ span weekly := by
    intro range hrange
    obtain ⟨piece, -, hpiece⟩ := exists_mem_of_forall₂ hpieces.flip hrange
    exact (readRange_eq_some hpiece).2
  refine ⟨ranges, hlisted, ⟨hne, ?_, fun range hrange =>
    (hall range hrange).2, fun range hrange => (hall range hrange).1,
    hdisjoint, hcovered⟩, ?_⟩
  · have hcount := hlength (splitOn_ne_nil _ _)
    rw [← hpieces.length_eq]
    omega
  · exact hpieces.imp fun piece range hpiece =>
      (readRange_eq_some hpiece).1

end Tomato64.QuotaRanges
