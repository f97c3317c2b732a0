import Tomato64.Core.Args
import Tomato64.Quota.Windows

/-!
# From the active field to the arguments of a rule

`quota_active_args` turns the active field of a quota record into the
`timerange` match of the rule.  Its text goes into the input of
`iptables-restore`, so what a user has written must stay inside the quotes that
the function puts around it.

The ranges are read character by character and cannot leave their quotes.  Of
a weekday only the first three letters are looked at.
-/

namespace Tomato64.ActiveArgs

open Args List QuotaRanges Text Timerange
open Windows

/-- A piece of a weekday list: a day, or all of them, and whatever follows. -/
def validWeekday (piece : Bytes) : Bool :=
  let text := piece.dropWhile isBlank
  3 ≤ text.length &&
    ((quotaDayIndex text).isSome || startsNoCase (bytes "all") text)

def quotaValidWeekdays (spec : Bytes) : Bool :=
  spec.length < 64 && (spec.splitOn 44).all validWeekday

/-- The four parts of an active field. -/
structure Active where
  mode : Bytes
  hours : Bytes
  weekdays : Bytes
  weekly : Bytes
deriving DecidableEq, Repr

/-- The parts between the bars.  A part that is missing is empty. -/
def splitActive (spec : Bytes) : Active :=
  let fields := spec.splitOn 124
  { mode := fields.getD 0 []
    hours := fields.getD 1 []
    weekdays := fields.getD 2 []
    weekly := fields.getD 3 [] }

def quotaActiveOnly : Bytes := bytes "only"
def quotaActiveExcept : Bytes := bytes "except"

/-- `snprintf` into a buffer of `size` bytes. -/
def snprintf (size : ℕ) (text : Bytes) : Bytes :=
  text.take (size - 1)

def quoted (value : Bytes) : Bytes :=
  [34] ++ value ++ [34]

/-- The three writes for hours and weekdays, each behind the one before. -/
def windowArgs (bufsz : ℕ) (neg hours weekdays : Bytes) : Bytes :=
  let head := bytes " -m timerange " ++ neg
  let hoursText :=
    if hours ≠ [] ∧ head.length < bufsz then bytes "--hours " ++ quoted hours
    else []
  let weekdaysText :=
    if weekdays ≠ [] ∧ (head ++ hoursText).length < bufsz then
      (if hours ≠ [] then bytes " " else []) ++
        (bytes "--weekdays " ++ quoted weekdays)
    else []
  snprintf bufsz (head ++ hoursText ++ weekdaysText)

/-- The text for one of the two modes, which `neg` tells apart. -/
def modeArgs (bufsz : ℕ) (neg : Bytes) (active : Active) : Bytes :=
  if active.weekly ≠ [] then
    if quotaValidRanges active.weekly true then
      snprintf bufsz (bytes " -m timerange " ++ neg ++
        (bytes "--weekly_ranges " ++ quoted active.weekly))
    else []
  else if active.hours = [] ∧ active.weekdays = [] then []
  else if active.hours ≠ [] ∧ quotaValidRanges active.hours false = false then
    []
  else if active.weekdays ≠ [] ∧ quotaValidWeekdays active.weekdays = false then
    []
  else windowArgs bufsz neg active.hours active.weekdays

/-- The arguments for an active field, empty when the quota is always
active. -/
def quotaActiveArgs (bufsz : ℕ) (active : Bytes) : Bytes :=
  if active = [] ∨ 384 ≤ active.length then []
  else
    let parts := splitActive active
    if parts.mode = quotaActiveExcept then modeArgs bufsz (bytes "! ") parts
    else if parts.mode = quotaActiveOnly then modeArgs bufsz [] parts
    else []

/-- The size of `activeargs` in `ipt_quotas`. -/
def activeargsSize : ℕ := 512

/-! ## What the arguments should be -/

abbrev OptionValue := Opt × Bytes

def optionName : Opt → Bytes
  | .hours => bytes "--hours"
  | .weekdays => bytes "--weekdays"
  | .weeklyRange => bytes "--weekly_ranges"

/-- The value is the part of the field that belongs to the option, and it has
passed its check. -/
def Validated (active : Active) : OptionValue → Prop
  | (.hours, value) =>
    value = active.hours ∧ quotaValidRanges value false = true
  | (.weekdays, value) =>
    value = active.weekdays ∧ quotaValidWeekdays value = true
  | (.weeklyRange, value) =>
    value = active.weekly ∧ quotaValidRanges value true = true

instance (active : Active) (option : OptionValue) :
    Decidable (Validated active option) :=
  match option with
  | (.hours, _) => inferInstanceAs (Decidable (_ ∧ _))
  | (.weekdays, _) => inferInstanceAs (Decidable (_ ∧ _))
  | (.weeklyRange, _) => inferInstanceAs (Decidable (_ ∧ _))

def optionArgs (option : OptionValue) : List Bytes :=
  [optionName option.1, option.2]

/-- The match, an exclamation mark if it is inverted, and the options. -/
def matchArgs (inverted : Bool) (options : List OptionValue) : List Bytes :=
  [bytes "-m", bytes "timerange"] ++ (if inverted then [bytes "!"] else []) ++
    options.flatMap optionArgs

/-- The options one after the other, as the match parses them. -/
def parseOptions (stale : Bytes → UInt64) (inverted : Bool) :
    List OptionValue → ℕ → XtTimerangeInfo → Option (ℕ × XtTimerangeInfo)
  | [], flags, info => some (flags, info)
  | option :: options, flags, info =>
    match parse stale option.1 option.2 inverted flags info with
    | none => none
    | some (flags, info) => parseOptions stale inverted options flags info

/-- A match before its options are parsed. -/
def emptyInfo : XtTimerangeInfo :=
  { ranges := [], days := [], type := 0, invert := false }

variable (stale : Bytes → UInt64)

/-- Every option is accepted, and the final check finds one of them. -/
def Parses (inverted : Bool) (options : List OptionValue) : Prop :=
  ∃ flags info, parseOptions stale inverted options 0 emptyInfo =
    some (flags, info) ∧ flags ≠ 0

/-- The text is empty, or it is split into the match and one or two options
that have been checked and that the match accepts. -/
def Contained (active : Bytes) : Prop :=
  quotaActiveArgs activeargsSize active = [] ∨
    ∃ inverted options, lineArgs (quotaActiveArgs activeargsSize active) =
        some (matchArgs inverted options) ∧
      (options.length = 1 ∨ options.length = 2) ∧
      (∀ option ∈ options, Validated (splitActive active) option) ∧
      Parses stale inverted options

/-- The weekdays of the field get into the text. -/
def UsesWeekdays (active : Bytes) : Prop :=
  active.length < 384 ∧
    ((splitActive active).mode = quotaActiveOnly ∨
      (splitActive active).mode = quotaActiveExcept) ∧
    (splitActive active).weekly = [] ∧
    ((splitActive active).hours = [] ∨
      quotaValidRanges (splitActive active).hours false = true) ∧
    (splitActive active).weekdays ≠ [] ∧
    quotaValidWeekdays (splitActive active).weekdays = true

/-- The weekdays stay in their quotes and on their line. -/
def PlainWeekdays (active : Bytes) : Prop :=
  Quotable (splitActive active).weekdays ∧
    10 ∉ (splitActive active).weekdays

instance (active : Bytes) : Decidable (UsesWeekdays active) :=
  inferInstanceAs (Decidable (_ ∧ _))

instance (active : Bytes) : Decidable (PlainWeekdays active) :=
  inferInstanceAs (Decidable (_ ∧ _))

/-! ## The text as a list of options -/

/-- Hours and weekdays as far as they are given. -/
def windowOptions (hours weekdays : Bytes) : List OptionValue :=
  (if hours ≠ [] then [(.hours, hours)] else []) ++
    (if weekdays ≠ [] then [(.weekdays, weekdays)] else [])

/-- The options that a field asks for.  Weekly ranges rule out the others. -/
def chosenOptions (parts : Active) : List OptionValue :=
  if parts.weekly ≠ [] then [(.weeklyRange, parts.weekly)]
  else windowOptions parts.hours parts.weekdays

def optionText (option : OptionValue) : Bytes :=
  optionName option.1 ++ 32 :: quoted option.2

def negText (inverted : Bool) : Bytes :=
  if inverted then bytes "! " else []

def argsText (inverted : Bool) (options : List OptionValue) : Bytes :=
  bytes " -m timerange " ++ negText inverted ++
    [32].intercalate (options.map optionText)

variable {spec active : Bytes} {options : List OptionValue} {parts : Active}
  {weekly : Bool}

theorem length_of_quotaValidRanges
    (hvalid : quotaValidRanges spec weekly = true) : spec.length < 320 := by
  rw [quotaValidRanges, listedRanges] at hvalid
  by_contra hlong
  rw [if_pos (not_lt.1 hlong)] at hvalid
  cases hvalid

theorem length_of_quotaValidWeekdays
    (hvalid : quotaValidWeekdays spec = true) : spec.length < 64 := by
  simp only [quotaValidWeekdays, Bool.and_eq_true, decide_eq_true_eq] at hvalid
  exact hvalid.1

theorem length_quoted (value : Bytes) :
    (quoted value).length = value.length + 2 := by
  simp [quoted]

theorem snprintf_eq {size : ℕ} {text : Bytes} (hlength : text.length < size) :
    snprintf size text = text :=
  take_of_length_le (by omega)

theorem length_negText (inverted : Bool) : (negText inverted).length ≤ 2 := by
  cases inverted <;> decide

/-- The text of one or two options as the function puts it together. -/
theorem argsText_singleton (inverted : Bool) (option : OptionValue) :
    argsText inverted [option] =
      bytes " -m timerange " ++ negText inverted ++ optionText option := by
  simp [argsText]

theorem append_quoted {name : Bytes} {opt : Opt}
    (hname : name = optionName opt ++ [32]) (value : Bytes) :
    name ++ quoted value = optionText (opt, value) := by
  rw [hname, optionText, append_assoc, singleton_append]

theorem length_optionText (opt : Opt) (value : Bytes) :
    (optionText (opt, value)).length ≤ value.length + 18 := by
  have hname : (optionName opt).length ≤ 15 := by cases opt <;> decide
  rw [optionText, length_append, length_cons, length_quoted]
  simp only
  omega

theorem windowArgs_eq (inverted : Bool) {hours weekdays : Bytes}
    (hsome : hours ≠ [] ∨ weekdays ≠ []) (hhours : hours.length < 320)
    (hweekdays : weekdays.length < 64) :
    windowArgs activeargsSize (negText inverted) hours weekdays =
      argsText inverted (windowOptions hours weekdays) := by
  have hneg := length_negText inverted
  have hhead : (bytes " -m timerange " ++ negText inverted).length ≤ 16 := by
    have hlength : (bytes " -m timerange ").length = 14 := by decide
    rw [length_append]
    omega
  have hhoursText := append_quoted
    (by decide : bytes "--hours " = optionName .hours ++ [32]) hours
  have hweekdaysText := append_quoted
    (by decide : bytes "--weekdays " = optionName .weekdays ++ [32]) weekdays
  have hhoursLength := length_optionText .hours hours
  have hweekdaysLength := length_optionText .weekdays weekdays
  have hsize : activeargsSize = 512 := rfl
  have hblank : bytes " " = [32] := by decide
  have hfits : (bytes " -m timerange " ++ negText inverted).length <
      activeargsSize := by
    omega
  simp only [windowArgs, hhoursText, hweekdaysText, hblank, windowOptions,
    argsText]
  generalize bytes " -m timerange " ++ negText inverted = head at *
  by_cases hnoHours : hours = []
  · have hgiven : weekdays ≠ [] := hsome.resolve_left (not_not.2 hnoHours)
    have hwhole : (head ++ optionText (.weekdays, weekdays)).length <
        activeargsSize := by
      rw [length_append]
      omega
    simp [hnoHours, hgiven, hfits, snprintf_eq hwhole]
  by_cases hnoWeekdays : weekdays = []
  · have hwhole : (head ++ optionText (.hours, hours)).length <
        activeargsSize := by
      rw [length_append]
      omega
    simp [hnoHours, hnoWeekdays, hfits, snprintf_eq hwhole]
  have hfirst : (head ++ optionText (.hours, hours)).length <
      activeargsSize := by
    rw [length_append]
    omega
  have hwhole : (head ++ (optionText (.hours, hours) ++
      32 :: optionText (.weekdays, weekdays))).length <
        activeargsSize := by
    rw [length_append, length_append, length_cons]
    omega
  rw [length_append] at hfirst
  simp [hnoHours, hnoWeekdays, hfits, hfirst, snprintf_eq hwhole,
    intercalate_cons_cons]

/-- Without weekly ranges the hours and the weekdays are checked as far as they
are given. -/
theorem validated_windowOptions_iff :
    (∀ option ∈ windowOptions parts.hours parts.weekdays,
      Validated parts option) ↔
      (parts.hours ≠ [] → quotaValidRanges parts.hours false = true) ∧
        (parts.weekdays ≠ [] → quotaValidWeekdays parts.weekdays = true) := by
  rw [windowOptions, forall_mem_append]
  refine and_congr ?_ ?_
  · split_ifs with hgiven
    · simp [Validated, hgiven]
    · simp [hgiven]
  · split_ifs with hgiven
    · simp [Validated, hgiven]
    · simp [hgiven]

/-- The function writes the options that the field asks for, once all of them
have passed their checks. -/
theorem modeArgs_eq (inverted : Bool) (parts : Active) :
    modeArgs activeargsSize (negText inverted) parts =
      if chosenOptions parts ≠ [] ∧
          ∀ option ∈ chosenOptions parts, Validated parts option then
        argsText inverted (chosenOptions parts)
      else [] := by
  by_cases hweekly : parts.weekly ≠ []
  · have hchosen : chosenOptions parts = [(.weeklyRange, parts.weekly)] :=
      if_pos hweekly
    rw [modeArgs, if_pos hweekly, hchosen]
    by_cases hvalid : quotaValidRanges parts.weekly true = true
    · have hchecked : Validated parts (.weeklyRange, parts.weekly) :=
        ⟨rfl, hvalid⟩
      have hvalue := length_of_quotaValidRanges hvalid
      have hlength := length_optionText .weeklyRange parts.weekly
      have hneg := length_negText inverted
      have hhead : (bytes " -m timerange ").length = 14 := by decide
      have hsize : activeargsSize = 512 := rfl
      rw [if_pos hvalid, if_pos ⟨by simp, by simpa using hchecked⟩,
        append_quoted (by decide : _ = optionName .weeklyRange ++ [32]),
        argsText_singleton, snprintf_eq]
      rw [length_append, length_append]
      omega
    · rw [if_neg hvalid, if_neg]
      rintro ⟨-, hall⟩
      have hchecked : Validated parts (.weeklyRange, parts.weekly) :=
        hall _ (by simp)
      exact hvalid hchecked.2
  · rw [modeArgs, if_neg hweekly, chosenOptions, if_neg hweekly]
    by_cases hnone : parts.hours = [] ∧ parts.weekdays = []
    · simp [windowOptions, hnone.1, hnone.2]
    rw [if_neg hnone]
    by_cases hhours : parts.hours ≠ [] ∧
        quotaValidRanges parts.hours false = false
    · rw [if_pos hhours, if_neg]
      rintro ⟨-, hall⟩
      have hvalid := (validated_windowOptions_iff.1 hall).1 hhours.1
      rw [hhours.2] at hvalid
      cases hvalid
    rw [if_neg hhours]
    by_cases hweekdays : parts.weekdays ≠ [] ∧
        quotaValidWeekdays parts.weekdays = false
    · rw [if_pos hweekdays, if_neg]
      rintro ⟨-, hall⟩
      have hvalid := (validated_windowOptions_iff.1 hall).2 hweekdays.1
      rw [hweekdays.2] at hvalid
      cases hvalid
    simp only [not_and, Bool.not_eq_false] at hhours hweekdays
    rw [if_neg (by simpa using hweekdays), if_pos, windowArgs_eq]
    · exact not_and_or.1 hnone
    · by_cases hempty : parts.hours = []
      · simp [hempty]
      · exact length_of_quotaValidRanges (hhours hempty)
    · by_cases hempty : parts.weekdays = []
      · simp [hempty]
      · exact length_of_quotaValidWeekdays (hweekdays hempty)
    · refine ⟨?_, validated_windowOptions_iff.2 ⟨hhours, hweekdays⟩⟩
      rcases not_and_or.1 hnone with hgiven | hgiven <;>
        simp [windowOptions, hgiven]

/-! ## Accepted values -/

/-- A character that neither ends a quoted value nor the line. -/
def PlainChar (char : Byte) : Prop :=
  char ≠ 34 ∧ char ≠ 92 ∧ char ≠ 10

instance (char : Byte) : Decidable (PlainChar char) :=
  inferInstanceAs (Decidable (_ ∧ _))

theorem quotable_of_plainChar {value : Bytes}
    (hvalue : ∀ char ∈ value, PlainChar char) : Quotable value ∧ 10 ∉ value :=
  ⟨⟨fun hmem => (hvalue 34 hmem).1 rfl, fun hmem => (hvalue 92 hmem).2.1 rfl⟩,
    fun hmem => (hvalue 10 hmem).2.2 rfl⟩

theorem plainChar_of_isDigit {char : Byte} (hdigit : isDigit char = true) :
    PlainChar char := by
  simp only [isDigit, Bool.and_eq_true, decide_eq_true_eq,
    UInt8.le_iff_toNat_le, UInt8.reduceToNat] at hdigit
  simp only [PlainChar, ne_eq, ← UInt8.toNat_inj, UInt8.reduceToNat]
  omega

theorem plainChar_of_mem_day {day : Bytes} {index : ℕ}
    (hlength : day.length = 3) (hindex : quotaDayIndex day = some index) :
    ∀ char ∈ day, PlainChar char := by
  obtain ⟨name, hname, hsame⟩ := exists_dayname hlength hindex
  have hletters : ∀ name ∈ quotaDaynames, ∀ char ∈ name.map toLower,
      PlainChar char := by
    decide
  intro char hchar
  have hlower := hletters name hname (toLower char)
    (hsame ▸ mem_map_of_mem hchar)
  refine ⟨?_, ?_, ?_⟩
  · rintro rfl
    exact hlower.1 rfl
  · rintro rfl
    exact hlower.2.1 rfl
  · rintro rfl
    exact hlower.2.2 rfl

theorem plainChar_of_clockText {text : Bytes} {value : ℤ}
    (htext : ClockText weekly text value) : ∀ char ∈ text, PlainChar char := by
  obtain ⟨front, day, gap, parts, tail, back, hclock⟩ := htext
  have hblank : ∀ char ∈ front ++ gap ++ back, PlainChar char := by
    intro char hchar
    have hchar := hclock.blank char hchar
    simp only [isBlank, Bool.or_eq_true, decide_eq_true_eq] at hchar
    rcases hchar with rfl | rfl <;> decide
  have hday : ∀ char ∈ day, PlainChar char := by
    obtain ⟨secs, hday, -⟩ := hclock.value_eq
    cases weekly with
    | false =>
      obtain ⟨rfl, -⟩ := hday
      simp
    | true =>
      obtain ⟨hlength, index, hindex, -⟩ := hday
      exact plainChar_of_mem_day hlength hindex
  have hparts : ∀ char ∈ [58].intercalate parts, PlainChar char := by
    intro char hchar
    rcases Split.mem_intercalate.1 hchar with ⟨part, hpart, hmem⟩ | ⟨rfl, -⟩
    · exact plainChar_of_isDigit
        ((hclock.parts_digits part hpart).digits char hmem)
    · decide
  have htail : ∀ char ∈ tail, PlainChar char := by
    rcases hclock.tail_eq with rfl | rfl
    · simp
    · decide
  simp only [forall_mem_append] at hblank
  rw [hclock.text_eq]
  simp only [forall_mem_append]
  exact ⟨hblank.1.1, hday, hblank.1.2, hparts, htail, hblank.2⟩

/-- Nothing in an accepted range list ends its quotes or its line. -/
theorem plainChar_of_quotaValidRanges
    (hvalid : quotaValidRanges spec weekly = true) :
    ∀ char ∈ spec, PlainChar char := by
  obtain ⟨ranges, -, -, hpieces⟩ := exists_of_quotaValidRanges hvalid
  have hpiece : ∀ piece ∈ spec.splitOn 44, ∀ char ∈ piece, PlainChar char := by
    intro piece hpiece
    obtain ⟨range, -, front, back, rfl, -, -, hfront, hback⟩ :=
      Split.exists_mem_of_forall₂ hpieces hpiece
    rw [forall_mem_append, forall_mem_cons]
    exact ⟨plainChar_of_clockText hfront, by decide,
      plainChar_of_clockText hback⟩
  intro char hchar
  rw [← @intercalate_splitOn _ spec _ _ 44, Split.mem_intercalate] at hchar
  rcases hchar with ⟨piece, hmem, hchar⟩ | ⟨rfl, -⟩
  · exact hpiece piece hmem char hchar
  · decide

/-- An accepted range list is accepted by the match. -/
theorem parse_ranges {opt : Opt} {value : Bytes} (hopt : opt ≠ .weekdays)
    (hvalid : quotaValidRanges value (opt = .weeklyRange) = true)
    (inverted : Bool) (info : XtTimerangeInfo) :
    ∃ info', parse stale opt value inverted 0 info = some (opt.val, info') := by
  obtain ⟨ranges, -, haccepted, hpieces⟩ := exists_of_quotaValidRanges hvalid
  have hparse := parseTimeRanges_eq stale haccepted hpieces
  have hlength := length_arrayOf haccepted
  have hfree : ¬ (opt.excludes.any fun other => 0 &&& other.val ≠ 0) = true := by
    cases opt <;> decide
  cases opt with
  | weekdays => exact absurd rfl hopt
  | hours =>
    simp only [parse, if_neg hfree, hparse, if_neg (not_le.2 hlength)]
    exact ⟨_, rfl⟩
  | weeklyRange =>
    simp only [decide_true] at hparse hlength
    simp only [parse, if_neg hfree, decide_true, hparse,
      if_neg (not_le.2 hlength)]
    exact ⟨_, rfl⟩

/-- The first letters of a checked weekday survive the trimming. -/
theorem dayFlags_of_validWeekday {piece : Bytes}
    (hvalid : validWeekday piece = true) : (dayFlags piece).isSome = true := by
  simp only [validWeekday, Bool.and_eq_true, decide_eq_true_eq,
    Bool.or_eq_true] at hvalid
  obtain ⟨hlength, hname⟩ := hvalid
  set text := piece.dropWhile isBlank with htext
  -- The names are all of three small letters.
  have hlower : ∃ name ∈ bytes "all" :: quotaDaynames,
      (text.take 3).map toLower = name := by
    rcases hname with hday | hall
    · obtain ⟨index, hindex⟩ := Option.isSome_iff_exists.1 hday
      rw [← quotaDayIndex_take] at hindex
      obtain ⟨name, hmem, hsame⟩ := exists_dayname (by simpa using hlength)
        hindex
      have hsmall : ∀ name ∈ quotaDaynames, name.map toLower = name := by
        decide
      exact ⟨name, mem_cons_of_mem _ hmem, by rw [hsame, hsmall name hmem]⟩
    · have hsame := of_decide_eq_true hall
      exact ⟨bytes "all", mem_cons_self, hsame⟩
  obtain ⟨name, hmem, hsame⟩ := hlower
  have hletters : ∀ name ∈ bytes "all" :: quotaDaynames,
      ∀ char ∈ name, isFlanking char = false := by
    decide
  have hplain : ∀ char ∈ text.take 3, isFlanking char = false :=
    fun char hchar => isFlanking_of_toLower (hletters name hmem (toLower char)
      (hsame ▸ mem_map_of_mem hchar))
  have hthree : (text.take 3).length = 3 := by simpa using hlength
  have hne : text.take 3 ≠ [] := by
    intro hnil
    simp [hnil] at hthree
  have htrim : (trimFlankingWhitespace piece).take 3 = text.take 3 := by
    have hdrop : piece.dropWhile isFlanking = text := by
      have hfront : ∀ char ∈ piece.takeWhile isBlank, isFlanking char = true :=
        fun char hchar => isFlanking_of_isBlank (mem_takeWhile_imp hchar)
      obtain ⟨first, others, hcons⟩ := exists_cons_of_ne_nil hne
      have hfirst := hplain first (by simp [hcons])
      rw [← takeWhile_append_dropWhile (p := isBlank) (l := piece),
        dropWhile_append_of_pos hfront, ← htext,
        ← take_append_drop 3 text, hcons]
      simp [hfirst]
    have hkeep := take_rdropWhile hne hplain (text.drop 3)
    rw [take_append_drop, hthree] at hkeep
    rw [trimFlankingWhitespace, hdrop, hkeep]
  have hflags : ∀ name ∈ bytes "all" :: quotaDaynames,
      (flagsOf name).isSome = true := by
    decide
  rw [dayFlags, toLowercase, htrim, hsame]
  exact hflags name hmem

/-- A checked weekday list is accepted by the match. -/
theorem parseWeekdays_of_valid (hvalid : quotaValidWeekdays spec = true) :
    (parseWeekdays spec).isSome = true := by
  simp only [quotaValidWeekdays, Bool.and_eq_true, all_eq_true] at hvalid
  have hnonempty : ∀ piece ∈ spec.splitOn 44, piece ≠ [] := by
    rintro piece hpiece rfl
    have hnil := hvalid.2 [] hpiece
    revert hnil
    decide
  obtain ⟨first, others, hcons⟩ :=
    exists_cons_of_ne_nil (splitOn_ne_nil 44 spec)
  have hfirst := dayFlags_of_validWeekday (hvalid.2 first (by simp [hcons]))
  have hany : ((splitOnSeparators spec 44 none).any fun piece =>
      (dayFlags piece).isSome) = true := by
    rw [splitOnSeparators, Split.words_eq_splitOn hnonempty, hcons]
    simp [hfirst]
  simp [parseWeekdays, hany]

/-! ## Splitting the text again -/

theorem splitArgs_head (inverted : Bool) (text : Bytes) :
    splitArgs .outside [] (bytes " -m timerange " ++ negText inverted ++ text) =
      [bytes "-m", bytes "timerange"] ++
        (if inverted then [bytes "!"] else []) ++
          splitArgs .outside [] text := by
  have hhead : bytes " -m timerange " =
      32 :: (bytes "-m" ++ 32 :: (bytes "timerange" ++ [32])) := by
    decide
  have hneg : bytes "! " = bytes "!" ++ [32] := by decide
  have hsplit : ∀ text, splitArgs .outside []
      (bytes " -m timerange " ++ text) =
        [bytes "-m", bytes "timerange"] ++ splitArgs .outside [] text := by
    intro text
    rw [hhead]
    simp only [cons_append, append_assoc, nil_append]
    rw [splitArgs_blank, splitArgs_word (by decide), splitArgs_word (by decide)]
  cases inverted with
  | false => simpa [negText] using hsplit text
  | true =>
    rw [append_assoc, hsplit, negText, if_pos rfl, hneg,
      append_assoc, singleton_append, splitArgs_word (by decide)]
    simp

theorem isWord_optionName (opt : Opt) : IsWord (optionName opt) := by
  cases opt <;> decide

theorem splitArgs_optionText (option : OptionValue) (text : Bytes) :
    splitArgs .outside [] (optionText option ++ text) =
      optionName option.1 :: splitArgs .inside [] (option.2 ++ 34 :: text) := by
  rw [optionText, quoted]
  simp only [append_assoc, cons_append, nil_append]
  rw [splitArgs_word (isWord_optionName option.1), splitArgs_quote]

theorem splitArgs_options_concat
    (hoptions : ∀ option ∈ options, Quotable option.2) (last : OptionValue) :
    splitArgs .outside []
        ([32].intercalate ((options ++ [last]).map optionText)) =
      options.flatMap optionArgs ++
        optionName last.1 :: splitArgs .inside [] (last.2 ++ [34]) := by
  induction options with
  | nil =>
    have hlast := splitArgs_optionText last []
    rw [append_nil] at hlast
    simpa using hlast
  | cons option options ih =>
    rw [forall_mem_cons] at hoptions
    have hne : (options ++ [last]).map optionText ≠ [] := by simp
    rw [cons_append, map_cons, intercalate_cons_of_ne_nil hne, append_assoc,
      splitArgs_optionText, splitArgs_inside hoptions.1, singleton_append,
      splitArgs_blank, ih hoptions.2]
    simp [optionArgs]

theorem splitArgs_argsText (hoptions : ∀ option ∈ options, Quotable option.2)
    (inverted : Bool) :
    splitArgs .outside [] (argsText inverted options) =
      matchArgs inverted options := by
  rw [argsText, splitArgs_head, matchArgs]
  congr 1
  rcases eq_nil_or_concat options with rfl | ⟨front, last, rfl⟩
  · rfl
  rw [concat_eq_append, forall_mem_append] at hoptions
  have hlast := hoptions.2 last (by simp)
  rw [concat_eq_append, splitArgs_options_concat hoptions.1,
    splitArgs_inside hlast]
  simp [splitArgs, finish, optionArgs]

variable {option : OptionValue}

theorem not_mem_optionText (hoption : 10 ∉ option.2) :
    10 ∉ optionText option := by
  have hname : 10 ∉ optionName option.1 := by
    cases option.1 <;> decide
  simp [optionText, quoted, hname, hoption]

theorem not_mem_argsText (hoptions : ∀ option ∈ options, 10 ∉ option.2)
    (inverted : Bool) : 10 ∉ argsText inverted options := by
  have hhead : 10 ∉ bytes " -m timerange " := by decide
  have hneg : 10 ∉ negText inverted := by cases inverted <;> decide
  have htext : 10 ∉ [32].intercalate (options.map optionText) := by
    rw [Split.mem_intercalate]
    rintro (⟨text, htext, hmem⟩ | ⟨hblank, -⟩)
    · obtain ⟨option, hoption, rfl⟩ := mem_map.1 htext
      exact not_mem_optionText (hoptions option hoption) hmem
    · cases hblank
  simp [argsText, hhead, hneg, htext]

/-! ## The whole field -/

/-- The function writes something: the field is short enough, has one of the
two modes, and every option it asks for has passed its check. -/
def Emits (active : Bytes) : Prop :=
  active.length < 384 ∧
    ((splitActive active).mode = quotaActiveOnly ∨
      (splitActive active).mode = quotaActiveExcept) ∧
    chosenOptions (splitActive active) ≠ [] ∧
    ∀ option ∈ chosenOptions (splitActive active),
      Validated (splitActive active) option

def isInverted (active : Bytes) : Bool :=
  (splitActive active).mode = quotaActiveExcept

instance (active : Bytes) : Decidable (Emits active) :=
  inferInstanceAs (Decidable (_ ∧ _))

theorem quotaActiveArgs_eq (active : Bytes) :
    quotaActiveArgs activeargsSize active =
      if Emits active then
        argsText (isInverted active) (chosenOptions (splitActive active))
      else [] := by
  have hargs (inverted : Bool) := modeArgs_eq inverted (splitActive active)
  rw [quotaActiveArgs]
  by_cases hlength : active = [] ∨ 384 ≤ active.length
  · rw [if_pos hlength, if_neg]
    rintro ⟨hshort, hmode, -⟩
    rcases hlength with rfl | hlong
    · revert hmode
      decide
    · omega
  have hshort : active.length < 384 := not_le.1 (not_or.1 hlength).2
  rw [if_neg hlength]
  simp only [Emits, hshort, true_and, isInverted]
  by_cases hexcept : (splitActive active).mode = quotaActiveExcept
  · simp only [hexcept, if_true, or_true, true_and, decide_true]
    exact hargs true
  · by_cases honly : (splitActive active).mode = quotaActiveOnly
    · simp only [honly, if_true, true_or, true_and]
      exact hargs false
    · simp [hexcept, honly]

/-- The weekdays are used exactly when they are among the options written. -/
theorem usesWeekdays_iff (active : Bytes) :
    UsesWeekdays active ↔ Emits active ∧
      (.weekdays, (splitActive active).weekdays) ∈
        chosenOptions (splitActive active) := by
  generalize hparts : splitActive active = parts
  simp only [UsesWeekdays, Emits, hparts]
  constructor
  · rintro ⟨hlength, hmode, hweekly, hhours, hne, hvalid⟩
    have hchosen : chosenOptions parts =
        windowOptions parts.hours parts.weekdays :=
      if_neg (not_not.2 hweekly)
    have hmem : (.weekdays, parts.weekdays) ∈ chosenOptions parts := by
      rw [hchosen]
      simp [windowOptions, hne]
    refine ⟨⟨hlength, hmode, ne_nil_of_mem hmem, ?_⟩, hmem⟩
    rw [hchosen]
    exact validated_windowOptions_iff.2 ⟨hhours.resolve_left, fun _ => hvalid⟩
  · rintro ⟨⟨hlength, hmode, -, hchecked⟩, hmem⟩
    by_cases hweekly : parts.weekly = []
    · rw [chosenOptions, if_neg (not_not.2 hweekly)] at hchecked hmem
      obtain ⟨hhours, hweekdays⟩ := validated_windowOptions_iff.1 hchecked
      have hgiven : parts.weekdays ≠ [] := by
        intro hnil
        simp [windowOptions, hnil] at hmem
      exact ⟨hlength, hmode, hweekly, or_iff_not_imp_left.2 hhours, hgiven,
        hweekdays hgiven⟩
    · simp [chosenOptions, hweekly] at hmem

theorem parse_weekdays {value : Bytes}
    (hvalid : quotaValidWeekdays value = true) (inverted : Bool) {flags : ℕ}
    (hflags : flags = 0 ∨ flags = 1) (info : XtTimerangeInfo) :
    ∃ info', parse stale .weekdays value inverted flags info =
      some (flags + 2, info') := by
  obtain ⟨days, hdays⟩ :=
    Option.isSome_iff_exists.1 (parseWeekdays_of_valid hvalid)
  have hfree : ¬ (Opt.weekdays.excludes.any fun other =>
      flags &&& other.val ≠ 0) = true := by
    rcases hflags with rfl | rfl <;> decide
  simp only [parse, if_neg hfree, hdays]
  exact ⟨_, rfl⟩

theorem chosenOptions_cases (hsome : chosenOptions parts ≠ []) :
    chosenOptions parts = [(.weeklyRange, parts.weekly)] ∨
      chosenOptions parts = [(.weekdays, parts.weekdays)] ∨
      chosenOptions parts = [(.hours, parts.hours)] ∨
      chosenOptions parts =
        [(.hours, parts.hours), (.weekdays, parts.weekdays)] := by
  rw [chosenOptions, windowOptions] at *
  split_ifs at * <;> simp_all

/-- The match accepts the options that were written. -/
theorem parses_chosenOptions (inverted : Bool)
    (hsome : chosenOptions parts ≠ [])
    (hchecked : ∀ option ∈ chosenOptions parts, Validated parts option) :
    Parses stale inverted (chosenOptions parts) := by
  rcases chosenOptions_cases hsome with hchosen | hchosen | hchosen | hchosen <;>
    rw [hchosen] at hchecked ⊢ <;> rw [forall_mem_cons] at hchecked
  · obtain ⟨info, hparse⟩ := parse_ranges stale
      (by decide : Opt.weeklyRange ≠ .weekdays) hchecked.1.2 inverted emptyInfo
    exact ⟨4, info, by simp [parseOptions, hparse, Opt.val], by decide⟩
  · obtain ⟨info, hparse⟩ := parse_weekdays stale hchecked.1.2 inverted
      (.inl rfl) emptyInfo
    exact ⟨2, info, by simp [parseOptions, hparse], by decide⟩
  · obtain ⟨info, hparse⟩ := parse_ranges stale
      (by decide : Opt.hours ≠ .weekdays) hchecked.1.2 inverted emptyInfo
    exact ⟨1, info, by simp [parseOptions, hparse, Opt.val], by decide⟩
  · obtain ⟨info, hparse⟩ := parse_ranges stale
      (by decide : Opt.hours ≠ .weekdays) hchecked.1.2 inverted emptyInfo
    have hweekdays : Validated parts (.weekdays, parts.weekdays) :=
      hchecked.2 _ (by simp)
    obtain ⟨final, hfinal⟩ := parse_weekdays stale hweekdays.2 inverted
      (.inr rfl) info
    exact ⟨3, final, by simp [parseOptions, hparse, Opt.val, hfinal], by decide⟩

theorem optionName_injective : Function.Injective optionName := by
  intro first second hname
  cases first <;> cases second <;> first | rfl | (revert hname; decide)

variable {rest : List Bytes}

/-- A value that belongs to the weekdays option stands right after its name. -/
theorem head_of_flatMap_optionArgs {weekdays : Bytes}
    (front : List OptionValue) {options : List OptionValue}
    (hvalues : ∀ option ∈ options, option.1 = .weekdays → option.2 = weekdays)
    (hargs : options.flatMap optionArgs =
      front.flatMap optionArgs ++ optionName .weekdays :: rest) :
    rest.head? = some weekdays := by
  induction front generalizing options with
  | nil =>
    cases options with
    | nil => simp at hargs
    | cons option options =>
      simp only [flatMap_cons, optionArgs, cons_append,
        nil_append, flatMap_nil, List.cons.injEq] at hargs
      have hvalue := hvalues option (by simp)
        (optionName_injective hargs.1)
      simp [← hargs.2, hvalue]
  | cons first front ih =>
    cases options with
    | nil => simp [optionArgs] at hargs
    | cons option options =>
      simp only [flatMap_cons, optionArgs, cons_append,
        nil_append, List.cons.injEq] at hargs
      exact ih (fun option hoption => hvalues option (by simp [hoption]))
        hargs.2.2

theorem head_optionArgs_ne (options : List OptionValue)
    (hrest : rest.head? ≠ some (bytes "!")) :
    (options.flatMap optionArgs ++ rest).head? ≠ some (bytes "!") := by
  cases options with
  | nil => simpa using hrest
  | cons option options =>
    have hname : optionName option.1 ≠ bytes "!" := by
      cases option.1 <;> decide
    simpa [optionArgs] using hname

/-- Two lists of arguments of the match have the same options. -/
theorem options_eq_of_args_eq {first second : Bool} {options : List OptionValue}
    (hrest : rest.head? ≠ some (bytes "!")) (hargs : matchArgs first options =
      [bytes "-m", bytes "timerange"] ++
        (if second then [bytes "!"] else []) ++ rest) :
    options.flatMap optionArgs = rest := by
  have hnone := head_optionArgs_ne options
    (by simp : ([] : List Bytes).head? ≠ some (bytes "!"))
  rw [append_nil] at hnone
  simp only [matchArgs, append_assoc, append_cancel_left_eq] at hargs
  cases first <;> cases second
  · simpa using hargs
  · simp only [Bool.false_eq_true, if_false, if_true, nil_append] at hargs
    simp [hargs] at hnone
  · simp only [Bool.false_eq_true, if_false, if_true, nil_append] at hargs
    simp [← hargs] at hrest
  · simpa using hargs

/-- The weekdays come last among the options. -/
theorem chosenOptions_weekdays
    (hmem : (.weekdays, parts.weekdays) ∈ chosenOptions parts) :
    ∃ front, chosenOptions parts = front ++ [(.weekdays, parts.weekdays)] ∧
      ∀ option ∈ front, option.1 = .hours := by
  rcases chosenOptions_cases (ne_nil_of_mem hmem) with
    hchosen | hchosen | hchosen | hchosen
  · simp [hchosen] at hmem
  · exact ⟨[], hchosen, by simp⟩
  · simp [hchosen] at hmem
  · exact ⟨[(.hours, parts.hours)], hchosen, by simp⟩

theorem quotable_of_validated
    (hopt : option.1 ≠ .weekdays) (hvalid : Validated parts option) :
    Quotable option.2 ∧ 10 ∉ option.2 := by
  obtain ⟨opt, value⟩ := option
  have hplain : ∀ char ∈ value, PlainChar char := by
    cases opt with
    | hours => exact plainChar_of_quotaValidRanges hvalid.2
    | weekdays => exact absurd rfl hopt
    | weeklyRange => exact plainChar_of_quotaValidRanges hvalid.2
  exact quotable_of_plainChar hplain

theorem length_chosenOptions (hsome : chosenOptions parts ≠ []) :
    (chosenOptions parts).length = 1 ∨ (chosenOptions parts).length = 2 := by
  rcases chosenOptions_cases hsome with hchosen | hchosen | hchosen | hchosen <;>
    simp [hchosen]

/-! ## Main result -/

theorem contained_of_quotable {active : Bytes} (hemits : Emits active)
    (hplain : ∀ option ∈ chosenOptions (splitActive active),
      Quotable option.2 ∧ 10 ∉ option.2) : Contained stale active := by
  obtain ⟨-, -, hsome, hchecked⟩ := id hemits
  right
  refine ⟨isInverted active, chosenOptions (splitActive active), ?_,
    length_chosenOptions hsome, hchecked,
    parses_chosenOptions stale _ hsome hchecked⟩
  rw [quotaActiveArgs_eq, if_pos hemits, lineArgs,
    if_neg (not_mem_argsText (fun option hoption => (hplain option hoption).2) _),
    splitArgs_argsText fun option hoption => (hplain option hoption).1]

theorem mem_argsText_of_mem (hoption : option ∈ options)
    {char : Byte} (hchar : char ∈ option.2) (inverted : Bool) :
    char ∈ argsText inverted options := by
  have htext : char ∈ optionText option := by
    simp [optionText, quoted, hchar]
  exact mem_append_right _
    (Split.mem_intercalate.2 (.inl ⟨_, mem_map_of_mem hoption, htext⟩))

/-- Weekdays that leave their quotes or their line are not read back as the
value of their option. -/
theorem not_contained_of_weekdays
    (huses : UsesWeekdays active) (hplain : ¬ PlainWeekdays active) :
    ¬ Contained stale active := by
  obtain ⟨hemits, hmem⟩ := (usesWeekdays_iff active).1 huses
  obtain ⟨-, -, -, hchecked⟩ := id hemits
  obtain ⟨front, hchosen, hhours⟩ := chosenOptions_weekdays hmem
  have hfront : ∀ option ∈ front, Quotable option.2 := by
    intro option hoption
    have hopt : option.1 ≠ .weekdays := by
      rw [hhours option hoption]
      decide
    exact (quotable_of_validated hopt
      (hchecked option (by simp [hchosen, hoption]))).1
  rintro (hempty | ⟨inverted, options, hline, -, hvalid, -⟩)
  · rw [quotaActiveArgs_eq, if_pos hemits, argsText] at hempty
    have hhead : bytes " -m timerange " ≠ [] := by decide
    simp [hhead] at hempty
  rw [quotaActiveArgs_eq, if_pos hemits, lineArgs] at hline
  split at hline
  · cases hline
  next hnewline =>
  have hquotable : ¬ Quotable (splitActive active).weekdays := fun hq =>
    hplain ⟨hq, fun hchar =>
      hnewline (mem_argsText_of_mem hmem hchar _)⟩
  have hhead := head_splitArgs_ne hquotable []
  have hargs := Option.some_injective _ hline
  rw [hchosen, argsText, splitArgs_head,
    splitArgs_options_concat hfront] at hargs
  have hname : optionName .weekdays ≠ bytes "!" := by decide
  have hrest := options_eq_of_args_eq
    (head_optionArgs_ne front (by simpa using hname)) hargs.symm
  refine hhead (head_of_flatMap_optionArgs front ?_ hrest)
  rintro ⟨opt, value⟩ hoption rfl
  have hvalidOption : Validated (splitActive active) (.weekdays, value) :=
    hvalid _ hoption
  exact hvalidOption.1

/-- What a window field adds to a rule is nothing or one match with options
that have passed their checks, unless its weekdays are used and hold a quote,
a backslash or a newline: a weekday is only checked for its first three
letters. -/
theorem contained_iff (stale : Bytes → UInt64) (active : Bytes) :
    Contained stale active ↔
      (UsesWeekdays active → PlainWeekdays active) := by
  constructor
  · intro hcontained huses
    by_contra hplain
    exact not_contained_of_weekdays stale huses hplain hcontained
  intro hplain
  by_cases hemits : Emits active
  swap
  · exact .inl ((quotaActiveArgs_eq active).trans (if_neg hemits))
  refine contained_of_quotable stale hemits ?_
  rintro ⟨opt, value⟩ hoption
  obtain ⟨-, -, -, hchecked⟩ := id hemits
  have hvalid := hchecked _ hoption
  cases opt with
  | weekdays =>
    have hvalue : value = (splitActive active).weekdays := hvalid.1
    subst hvalue
    exact hplain ((usesWeekdays_iff active).2 ⟨hemits, hoption⟩)
  | hours => exact quotable_of_validated (by simp) hvalid
  | weeklyRange => exact quotable_of_validated (by simp) hvalid

/-- A quote after the first three letters of a weekday ends the value, and
what follows it gets into the rule as further arguments. -/
theorem contained_quotedWeekday_fails :
    lineArgs (quotaActiveArgs activeargsSize
        (bytes "only||Sun\" -j \"ACCEPT")) =
      some [bytes "-m", bytes "timerange", bytes "--weekdays", bytes "Sun",
        bytes "-j", bytes "ACCEPT"] ∧
    ∀ stale, ¬ Contained stale (bytes "only||Sun\" -j \"ACCEPT") := by
  refine ⟨by decide, fun stale => ?_⟩
  exact not_contained_of_weekdays stale (by decide) (by decide)

end Tomato64.ActiveArgs
