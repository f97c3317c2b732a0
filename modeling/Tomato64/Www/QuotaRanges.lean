import Tomato64.Quota.Ranges
import Mathlib.Data.List.DropRight

/-!
# The range lists of the quota page

`quota-settings.asp` checks a range list before it is stored.  Its comments
call the two functions a deliberate mirror of those in `quotas.c`: whatever the
page accepts and `rc` refuses turns into a quota without a window.

The texts are ASCII, one byte for a character of the script.
-/

namespace Tomato64.QuotaPage

open List Scan Split Text
open Tomato64.QuotaRanges (Range clockParts isBlank overlap overlapFound
  quotaDayIndex readRange readRanges)

/-- The characters of `\s`. -/
def isWhite (char : Byte) : Bool :=
  (9 ≤ char && char ≤ 13) || char = 32

/-- `text.replace(/^\s+/, '')` -/
def trimStart (text : Bytes) : Bytes :=
  text.dropWhile isWhite

/-- `text.replace(/\s+$/, '')` -/
def trimEnd (text : Bytes) : Bytes :=
  text.rdropWhile isWhite

/-- The text of `/^(\d{1,2})/`, empty when there is no match. -/
def leadingDigits (text : Bytes) : Bytes :=
  (text.takeWhile isDigit).take 2

def quotaDaynames : List Bytes :=
  ["Sun", "Mon", "Tue", "Wed", "Thu", "Fri", "Sat"].map bytes

def quotaRangeMax : ℕ := 12

def span (weekly : Bool) : ℤ :=
  if weekly then 604800 else 86400

def clockDay (weekly : Bool) (text : Bytes) : Option (ℤ × Bytes) :=
  if weekly then
    (quotaDaynames.findIdx? fun name =>
        (text.take 3).map toLower = name.map toLower).map fun (day : ℕ) =>
      (day * 86400, trimStart (text.drop 3))
  else some (0, text)

/-- The loop over hours, minutes and seconds. -/
def clockLoop : List ℤ → ℤ → Bytes → Option (ℤ × Bytes)
  | [], secs, text => some (secs, text)
  | mult :: mults, secs, text =>
    if leadingDigits text = [] then none
    else
      let secs := secs + valueOf 10 (leadingDigits text) * mult
      match text.drop (leadingDigits text).length with
      | 58 :: behind => clockLoop mults secs behind
      | rest => some (secs, rest)

def quotaParseClock (text : Bytes) (weekly : Bool) : ℤ :=
  match clockDay weekly (trimStart text) with
  | none => -1
  | some (day, behind) =>
    match clockLoop [3600, 60, 1] day behind with
    | none => -1
    | some (secs, rest) =>
      if trimEnd rest ≠ [] then -1
      else if secs ≤ span weekly then secs else -1

/-- The loop over the pieces. -/
def readPieces (weekly : Bool) : List Bytes → Option (List Range)
  | [] => some []
  | piece :: pieces =>
    match splitFirst 45 piece with
    | none => none
    | some (front, back) =>
      if 45 ∈ back then none
      else
        let a := quotaParseClock front weekly
        let b := quotaParseClock back weekly
        if a < 0 ∨ b < 0 ∨ a = b then none
        else (readPieces weekly pieces).map ((a, b) :: ·)

/-- The end of a range, moved behind its start. -/
def unwrapEnd (span : ℤ) (range : Range) : ℤ :=
  if range.2 < range.1 then range.2 + span else range.2

/-- The loop over the ranges, which adds up what they cover and leaves at the
first one that meets another. -/
def coverLoop (span : ℤ) (all : List (Range × ℕ)) :
    List (Range × ℕ) → ℤ → Option ℤ
  | [], covered => some covered
  | (range, index) :: rest, covered =>
    let e1 := unwrapEnd span range
    if all.any fun other => other.2 ≠ index &&
        (range.1 < unwrapEnd span other.1 && e1 > other.1.1) then none
    else coverLoop span all rest (covered + (e1 - range.1))

def quotaValidRanges (spec : Bytes) (weekly : Bool) : Bool :=
  let pieces := spec.splitOn 44
  if quotaRangeMax < pieces.length then false
  else
    match readPieces weekly pieces with
    | none => false
    | some ranges =>
      if ranges = [] then false
      else
        match coverLoop (span weekly) ranges.zipIdx ranges.zipIdx 0 with
        | none => false
        | some covered => !(span weekly ≤ covered : Bool)

/-! ## Clock times -/

def Printable (char : Byte) : Prop :=
  char = 9 ∨ 32 ≤ char ∧ char ≤ 126

instance (char : Byte) : Decidable (Printable char) :=
  inferInstanceAs (Decidable (_ ∨ _))

/-- The white space that can be typed is blank or tab. -/
theorem isWhite_eq_isBlank {char : Byte} (hchar : Printable char) :
    isWhite char = isBlank char := by
  rw [Bool.eq_iff_iff]
  simp only [Printable, isWhite, isBlank, Bool.or_eq_true,
    Bool.and_eq_true, decide_eq_true_eq, UInt8.le_iff_toNat_le,
    ← UInt8.toNat_inj, UInt8.reduceToNat] at *
  omega

theorem isWhite_eq_false {char : Byte} (hdigit : isDigit char = true) :
    isWhite char = false := by
  rw [Bool.eq_false_iff]
  simp only [isDigit, isWhite, ne_eq, Bool.or_eq_true, Bool.and_eq_true,
    decide_eq_true_eq, UInt8.le_iff_toNat_le, ← UInt8.toNat_inj,
    UInt8.reduceToNat] at *
  omega

variable {text : Bytes}

theorem trimStart_eq (htext : ∀ char ∈ text, Printable char) :
    trimStart text = text.dropWhile isBlank := by
  induction text with
  | nil => rfl
  | cons char text ih =>
    rw [forall_mem_cons] at htext
    rw [trimStart, dropWhile_cons, dropWhile_cons, isWhite_eq_isBlank htext.1]
    split
    · exact ih htext.2
    · rfl

theorem trimEnd_eq_nil_iff (htext : ∀ char ∈ text, Printable char) :
    trimEnd text = [] ↔ text.dropWhile isBlank = [] := by
  rw [trimEnd, rdropWhile_eq_nil_iff, dropWhile_eq_nil_iff]
  constructor
  · intro hwhite char hchar
    rw [← isWhite_eq_isBlank (htext char hchar)]
    exact hwhite char hchar
  · intro hblank char hchar
    rw [isWhite_eq_isBlank (htext char hchar)]
    exact hblank char hchar

/-- The two tables of day names differ in the case of their letters only. -/
theorem quotaDaynames_lower :
    quotaDaynames.map (·.map toLower) =
      QuotaRanges.quotaDaynames.map (·.map toLower) := by
  decide

variable {weekly : Bool} {pieces : List Bytes}

theorem clockDay_eq (htext : ∀ char ∈ text, Printable char) :
    clockDay weekly text = QuotaRanges.clockDay weekly text := by
  have hdrop : trimStart (text.drop 3) =
      (text.drop 3).dropWhile isBlank :=
    trimStart_eq fun char hchar => htext char (mem_of_mem_drop hchar)
  have hindex : (quotaDaynames.findIdx? fun name =>
      (text.take 3).map toLower = name.map toLower) =
      quotaDayIndex text := by
    calc (quotaDaynames.findIdx? fun name =>
          (text.take 3).map toLower = name.map toLower)
        = (quotaDaynames.map (·.map toLower)).findIdx?
            fun name => (text.take 3).map toLower = name := by
          rw [findIdx?_map]
          rfl
      _ = QuotaRanges.quotaDaynames.findIdx? fun name =>
            (text.take 3).map toLower = name.map toLower := by
          rw [quotaDaynames_lower, findIdx?_map]
          rfl
      _ = quotaDayIndex text := by
          apply findIdx?_congr
          intro name hname
          rw [startsNoCase, QuotaRanges.length_of_mem_quotaDaynames name hname]
  rw [clockDay, QuotaRanges.clockDay, hindex, hdrop]
  rfl

section
variable {text rest : Bytes} {mult : ℤ} {mults : List ℤ} {secs : ℤ}

theorem clockLoop_stop (hdigits : leadingDigits text ≠ [])
    (hrest : text.drop (leadingDigits text).length = rest)
    (hcolon : rest.head? ≠ some 58) :
    clockLoop (mult :: mults) secs text =
      some (secs + valueOf 10 (leadingDigits text) * mult, rest) := by
  rw [clockLoop, if_neg hdigits]
  split
  · next behind hbehind =>
    rw [← hrest, hbehind] at hcolon
    exact absurd rfl hcolon
  · rw [hrest]
end

/-- One or two digits are read by both. -/
theorem leadingDigits_short (hshort : (text.takeWhile isDigit).length ≤ 2) :
    leadingDigits text = text.takeWhile isDigit ∧
      text.drop (leadingDigits text).length = text.dropWhile isDigit := by
  have hdigits : leadingDigits text = text.takeWhile isDigit :=
    take_of_length_le hshort
  refine ⟨hdigits, ?_⟩
  have hdrop : (text.takeWhile isDigit ++ text.dropWhile isDigit).drop
      (text.takeWhile isDigit).length = text.dropWhile isDigit :=
    drop_left
  rwa [takeWhile_append_dropWhile, ← hdigits] at hdrop

/-- A third digit is left over. -/
theorem leadingDigits_long (hlong : 2 < (text.takeWhile isDigit).length) :
    leadingDigits text ≠ [] ∧ ∃ digit behind, isDigit digit = true ∧
      text.drop (leadingDigits text).length = digit :: behind := by
  have hlength : (leadingDigits text).length = 2 := by
    rw [leadingDigits, length_take]
    omega
  have hmem := getElem_mem hlong
  refine ⟨by rintro hnil; simp [hnil] at hlength, _, text.drop 3,
    mem_takeWhile_imp hmem, ?_⟩
  have hless := hlong.trans_le (List.takeWhile_prefix isDigit).length_le
  rw [hlength, (List.takeWhile_prefix isDigit).getElem hlong,
    drop_eq_getElem_cons hless]

/-- What the two parsers make of the loop's result. -/
def settle (weekly : Bool) (isEnd : Bytes → Prop) [DecidablePred isEnd] :
    Option (ℤ × Bytes) → Option ℤ
  | none => none
  | some (secs, rest) =>
    if isEnd rest ∧ secs ≤ span weekly then some secs else none

/-- The loops differ only where the text behind a part starts with a digit.
One of them refuses such a text at once and the other one at its end. -/
theorem settle_clockLoop (mults : List ℤ) (secs : ℤ)
    (htext : ∀ char ∈ text, Printable char) :
    settle weekly (fun rest => trimEnd rest = []) (clockLoop mults secs text) =
      settle weekly (fun rest => rest.dropWhile isBlank = [])
        (clockParts mults secs text) := by
  induction mults generalizing secs text with
  | nil =>
    simp only [clockLoop, clockParts, settle,
      trimEnd_eq_nil_iff htext]
  | cons mult mults ih =>
    by_cases hfirst : (text.head?.map isDigit).getD false = true
    · obtain ⟨hne, hstrtol⟩ := QuotaRanges.strtol_of_digit hfirst
      have hlength : text.length - (text.dropWhile isDigit).length =
          (text.takeWhile isDigit).length := by
        have hsum := congrArg List.length
          (takeWhile_append_dropWhile (p := isDigit) (l := text))
        rw [length_append] at hsum
        omega
      rw [clockParts, if_pos hfirst, hstrtol]
      dsimp only
      rw [hlength]
      by_cases hshort : (text.takeWhile isDigit).length ≤ 2
      · have hpart : QuotaRanges.IsPart (text.takeWhile isDigit) :=
          ⟨hne, hshort, fun char hchar => mem_takeWhile_imp hchar⟩
        obtain ⟨hdigits, hrest⟩ := leadingDigits_short hshort
        have hprint : ∀ char ∈ text.dropWhile isDigit, Printable char :=
          fun char hchar => htext char ((dropWhile_sublist _).subset hchar)
        rw [if_neg (by omega), hpart.clamp]
        split
        · next behind hbehind =>
          rw [hbehind] at hrest hprint
          rw [clockLoop, if_neg (hdigits ▸ hne), hrest, hdigits]
          exact ih _ (forall_mem_cons.1 hprint).2
        · next hcolon =>
          rw [clockLoop_stop (hdigits ▸ hne) hrest, hdigits]
          · simp only [settle, trimEnd_eq_nil_iff hprint]
          · intro hhead
            obtain ⟨behind, hbehind⟩ := head?_eq_some_iff.1 hhead
            exact hcolon behind hbehind
      · obtain ⟨hdigits, digit, behind, hdigit, hrest⟩ :=
          leadingDigits_long (not_le.1 hshort)
        have hcolon : digit ≠ 58 := by
          rintro rfl
          exact absurd hdigit (by decide)
        rw [if_pos (not_le.1 hshort),
          clockLoop_stop hdigits hrest (by simpa using hcolon)]
        have hrefuse : trimEnd (digit :: behind) ≠ [] := by
          rw [trimEnd, Ne, rdropWhile_eq_nil_iff]
          intro hwhite
          have hspace := hwhite digit mem_cons_self
          rw [isWhite_eq_false hdigit] at hspace
          cases hspace
        simp [settle, hrefuse]
    · have hnone : leadingDigits text = [] := by
        cases text with
        | nil => rfl
        | cons char text =>
          have hchar : ¬ isDigit char = true := by simpa using hfirst
          rw [leadingDigits, takeWhile_cons_of_neg hchar]
          rfl
      rw [clockLoop, if_pos hnone, clockParts, if_neg hfirst]
      rfl

theorem span_eq (weekly : Bool) : span weekly = QuotaRanges.span weekly := by
  cases weekly <;> rfl

/-- The parser of the page, with nothing for its `-1`. -/
theorem quotaParseClock_settle (text : Bytes) (weekly : Bool) :
    quotaParseClock text weekly =
      (((clockDay weekly (trimStart text)).bind fun front =>
        settle weekly (fun rest => trimEnd rest = [])
          (clockLoop [3600, 60, 1] front.1 front.2)).getD (-1)) := by
  rw [quotaParseClock]
  cases clockDay weekly (trimStart text) with
  | none => rfl
  | some front =>
    simp only [Option.bind_some]
    cases clockLoop [3600, 60, 1] front.1 front.2 with
    | none => rfl
    | some result =>
      simp only [settle]
      by_cases hend : trimEnd result.2 = []
      · by_cases hspan : result.1 ≤ span weekly
        · simp [hend, hspan]
        · simp [hend, hspan]
      · simp [hend]

/-- The parser of `rc` in the same form. -/
theorem rc_quotaParseClock_settle (text : Bytes) (weekly : Bool) :
    QuotaRanges.quotaParseClock text weekly = (QuotaRanges.clockDay weekly
          (text.dropWhile isBlank)).bind fun front =>
        settle weekly (fun rest => rest.dropWhile isBlank = [])
          (clockParts [3600, 60, 1] front.1 front.2) := by
  rw [QuotaRanges.quotaParseClock]
  cases QuotaRanges.clockDay weekly (text.dropWhile isBlank) with
  | none => rfl
  | some front =>
    simp only [Option.bind_some]
    cases clockParts [3600, 60, 1] front.1 front.2 with
    | none => rfl
    | some result => simp only [settle, span_eq]

theorem mem_of_clockDay {front : ℤ × Bytes}
    (hday : QuotaRanges.clockDay weekly text = some front) :
    ∀ char ∈ front.2, char ∈ text := by
  intro char hchar
  rw [QuotaRanges.clockDay] at hday
  split at hday
  · obtain ⟨day, -, rfl⟩ := Option.map_eq_some_iff.1 hday
    exact mem_of_mem_drop ((dropWhile_sublist _).subset hchar)
  · cases hday
    exact hchar

theorem quotaParseClock_eq
    (htext : ∀ char ∈ text, Printable char) (weekly : Bool) :
    quotaParseClock text weekly =
      (QuotaRanges.quotaParseClock text weekly).getD (-1) := by
  have hbody : ∀ char ∈ text.dropWhile isBlank, Printable char :=
    fun char hchar => htext char ((dropWhile_sublist _).subset hchar)
  rw [quotaParseClock_settle, rc_quotaParseClock_settle, trimStart_eq htext,
    clockDay_eq hbody]
  congr 1
  apply Option.bind_congr
  intro front hfront
  exact settle_clockLoop _ _ fun char hchar =>
    hbody char (mem_of_clockDay hfront char hchar)

/-! ## Range lists -/

theorem rc_quotaParseClock_nonneg {value : ℤ}
    (hread : QuotaRanges.quotaParseClock text weekly = some value) :
    0 ≤ value :=
  (QuotaRanges.quotaParseClock_eq_some hread).2.1

/-- A piece with one dash, read by `rc`. -/
theorem readRange_eq {piece front back : Bytes}
    (hpiece : ∀ char ∈ piece, Printable char)
    (hcut : splitFirst 45 piece = some (front, back)) (hdash : 45 ∉ back) :
    readRange weekly piece =
      if quotaParseClock front weekly < 0 ∨ quotaParseClock back weekly < 0 ∨
        quotaParseClock front weekly = quotaParseClock back weekly then none
      else some (quotaParseClock front weekly, quotaParseClock back weekly) := by
  rw [readRange, hcut]
  obtain ⟨rfl, -⟩ := splitFirst_eq_some_iff.1 hcut
  rw [forall_mem_append, forall_mem_cons] at hpiece
  dsimp only
  rw [if_neg hdash, quotaParseClock_eq hpiece.1, quotaParseClock_eq hpiece.2.2]
  cases hstart : QuotaRanges.quotaParseClock front weekly with
  | none => simp
  | some start =>
    have hstartPos := rc_quotaParseClock_nonneg hstart
    cases hstop : QuotaRanges.quotaParseClock back weekly with
    | none => simp
    | some stop =>
      have hstopPos := rc_quotaParseClock_nonneg hstop
      simp [not_lt.2 hstartPos, not_lt.2 hstopPos]

theorem readPieces_cons {piece : Bytes}
    (hpiece : ∀ char ∈ piece, Printable char) :
    readPieces weekly (piece :: pieces) =
      (readRange weekly piece).bind fun range =>
        (readPieces weekly pieces).map (range :: ·) := by
  rw [readPieces]
  cases hcut : splitFirst 45 piece with
  | none =>
    rw [readRange, hcut]
    rfl
  | some cut =>
    by_cases hdash : 45 ∈ cut.2
    · rw [readRange, hcut]
      simp [hdash]
    · rw [readRange_eq hpiece hcut hdash]
      dsimp only
      rw [if_neg hdash]
      split <;> rfl

theorem readRanges_cons {count : ℕ} {piece : Bytes}
    (hcount : ¬ QuotaRanges.quotaRangeMax ≤ count) :
    readRanges weekly count (piece :: pieces) =
      (readRange weekly piece).bind fun range =>
        (readRanges weekly (count + 1) pieces).map
          (range :: ·) := by
  rw [readRanges, if_neg hcount]
  cases readRange weekly piece with
  | none => rfl
  | some range =>
    cases readRanges weekly (count + 1) pieces <;> rfl

theorem readPieces_eq (count : ℕ)
    (hpieces : ∀ piece ∈ pieces, ∀ char ∈ piece, Printable char)
    (hcount : count + pieces.length ≤ quotaRangeMax) :
    readPieces weekly pieces = readRanges weekly count pieces := by
  induction pieces generalizing count with
  | nil => rfl
  | cons piece pieces ih =>
    rw [forall_mem_cons] at hpieces
    rw [length_cons] at hcount
    have hroom : ¬ QuotaRanges.quotaRangeMax ≤ count := by
      rw [quotaRangeMax] at hcount
      rw [QuotaRanges.quotaRangeMax]
      omega
    rw [readPieces_cons hpieces.1, readRanges_cons hroom,
      ih (count + 1) hpieces.2 (by omega)]

/-- The loop adds up the lengths unless some two ranges overlap. -/
theorem coverLoop_eq (span : ℤ) (all rest : List (Range × ℕ)) (covered : ℤ) :
    coverLoop span all rest covered =
      if (rest.any fun left => all.any fun right =>
          right.2 ≠ left.2 && overlap span left.1 right.1) then none
      else some (covered + QuotaRanges.covered span (rest.map Prod.fst)) := by
  induction rest generalizing covered with
  | nil => simp [coverLoop, QuotaRanges.covered]
  | cons left rest ih =>
    have hcovered : QuotaRanges.covered span ((left :: rest).map Prod.fst) =
        (unwrapEnd span left.1 - left.1.1) +
          QuotaRanges.covered span (rest.map Prod.fst) := by
      simp [QuotaRanges.covered, QuotaRanges.unwrapEnd, unwrapEnd]
    rw [coverLoop, ih, hcovered, any_cons, Int.add_assoc]
    change (if (all.any fun right => right.2 ≠ left.2 &&
      overlap span left.1 right.1) = true then _ else _) = _
    split
    · next hmeets => rw [hmeets, Bool.true_or, if_pos rfl]
    · next hapart => rw [Bool.eq_false_iff.2 hapart, Bool.false_or]

/-- More pieces than the array holds are refused. -/
theorem readRanges_eq_none (hlength : quotaRangeMax < pieces.length) :
    readRanges weekly 0 pieces = none := by
  rw [Option.eq_none_iff_forall_not_mem]
  intro ranges hread
  have hcount := (QuotaRanges.readRanges_eq_some hread).2 (by
    rintro rfl
    simp at hlength)
  rw [QuotaRanges.quotaRangeMax, Nat.zero_add] at hcount
  rw [quotaRangeMax] at hlength
  omega

/-- The page accepts what `rc` accepts, and both read the same seconds from
every part of the text. -/
theorem quotaValidRanges_eq (spec : Bytes) (hlength : spec.length ≤ 319)
    (hspec : ∀ char ∈ spec, Printable char) (weekly : Bool) :
    quotaValidRanges spec weekly = QuotaRanges.quotaValidRanges spec weekly ∧
      ∀ endpoint, endpoint <:+: spec →
        quotaParseClock endpoint weekly =
          (QuotaRanges.quotaParseClock endpoint weekly).getD (-1) := by
  refine ⟨?_, fun endpoint hinside => quotaParseClock_eq
    (fun char hchar => hspec char (hinside.subset hchar)) weekly⟩
  have hpieces : ∀ piece ∈ spec.splitOn 44, ∀ char ∈ piece, Printable char :=
    fun piece hpiece char hchar =>
      hspec char (subset_of_mem_splitOn hpiece hchar)
  have hfits : ¬ 320 ≤ spec.length := by omega
  rw [quotaValidRanges, QuotaRanges.quotaValidRanges, QuotaRanges.listedRanges,
    if_neg hfits]
  by_cases hcount : quotaRangeMax < (spec.splitOn 44).length
  · rw [if_pos hcount, readRanges_eq_none hcount]
  rw [if_neg hcount, readPieces_eq 0 hpieces (by omega)]
  cases readRanges weekly 0 (spec.splitOn 44) with
  | none => rfl
  | some ranges =>
    dsimp only
    rw [coverLoop_eq, zipIdx_map_fst, Int.zero_add, span_eq,
      ← overlapFound]
    by_cases hnil : ranges = []
    · simp [hnil]
    rw [if_neg hnil]
    cases overlapFound (QuotaRanges.span weekly) ranges with
    | true => simp
    | false =>
      simp only [← decide_not, not_le]
      simp [hnil]

theorem quotaValidRanges_eq_night :
    quotaValidRanges (bytes "22:30-6") false =
        QuotaRanges.quotaValidRanges (bytes "22:30-6") false ∧
      quotaParseClock (bytes "22:30") false =
        (QuotaRanges.quotaParseClock (bytes "22:30") false).getD (-1) := by
  have heq := quotaValidRanges_eq (bytes "22:30-6") (by decide) (by decide)
    false
  exact ⟨heq.1, heq.2 _ ⟨[], bytes "-6", by decide⟩⟩

end Tomato64.QuotaPage
