import Mathlib.Logic.Function.Basic
import Tomato64.Core.Fields
import Tomato64.Core.Run
import Tomato64.Shared.Misc

/-!
# Renamed protocols of nDPI

A release of nDPI has new names for some protocols.  `ndpi_migrate_rules` looks
for the old names in the rules of QoS and the access restrictions, and puts the
new ones in their place.
-/

namespace Tomato64.Ndpi

open Fields List Shared Split Text

/-- The names that the running nDPI knows.  Nothing when the table cannot be
read. -/
abbrev Protos := Option (List Bytes)

variable (protos : Protos) (name : Bytes)

def ndpiProtoValid : ℤ :=
  if name = [] then -1
  else
    match protos with
    | none => -1
    | some table => if table.any (equalNoCase · name) then 1 else 0

/-- The old and the new names. -/
def ndpiRenamed : List (Bytes × Bytes) :=
  [(bytes "skype_teams", bytes "teams"),
    (bytes "skype_teamscall", bytes "teamscall")]

/-- A new name can be used, and the old one cannot. -/
def Applies (entry : Bytes × Bytes) : Prop :=
  ndpiProtoValid protos entry.1 = 0 ∧ ndpiProtoValid protos entry.2 = 1

instance (protos : Protos) (entry : Bytes × Bytes) :
    Decidable (Applies protos entry) :=
  inferInstanceAs (Decidable (_ ∧ _))

def ndpiRenameOf : Option Bytes :=
  match ndpiRenamed.find? fun entry => equalNoCase name entry.1 with
  | some entry => if Applies protos entry then some entry.2 else none
  | none => none

/-! ## One field of each record -/

def isSep (char : Byte) : Bool :=
  char = ascii '<' || char = ascii '>'

/-- The number of the field behind a character. -/
def nextIdx (idx : ℕ) (char : Byte) : ℕ :=
  if char = ascii '<' then idx + 1 else if char = ascii '>' then 0 else idx

/-- The new name for what stands in the field, which is a protocol name only if
it fits the buffer. -/
def renameName : Option Bytes :=
  if name.length < 64 then ndpiRenameOf protos name else none

/-- The loop of `ndpi_rename_field`: the text in `dst` and `changed`, or nothing
if the buffer is too small. -/
def renameLoop (protos : Protos) (dstSz field idx : ℕ) (dst : Bytes)
    (changed : Bool) (src : Bytes) : Option (Bytes × Bool) :=
  match src with
  | [] => some (dst, changed)
  | char :: rest =>
    if idx = field then
      let name := (char :: rest).takeWhile (!isSep ·)
      let new := renameName protos name
      let written := new.getD name
      if dstSz ≤ dst.length + written.length then none
      else
        match _hbehind : (char :: rest).dropWhile (!isSep ·) with
        | [] => some (dst ++ written, changed || new.isSome)
        | sep :: behind =>
          if dstSz ≤ dst.length + written.length + 1 then none
          else
            renameLoop protos dstSz field (nextIdx idx sep)
              (dst ++ written ++ [sep]) (changed || new.isSome) behind
    else if dstSz ≤ dst.length + 1 then none
    else
      renameLoop protos dstSz field (nextIdx idx char) (dst ++ [char]) changed
        rest
termination_by src.length
decreasing_by
  · have hle := (dropWhile_suffix (p := (!isSep ·))
      (l := char :: rest)).length_le
    rw [_hbehind] at hle
    exact hle
  · exact Nat.lt_succ_self rest.length

/-- `ndpi_rename_field`: the new text, if there is one. -/
def ndpiRenameField (dstSz : ℕ) (src : Bytes) (field : ℕ) : Option Bytes :=
  match renameLoop protos dstSz field 0 [] false src with
  | some (dst, true) => some dst
  | _ => none

/-! ## The rules -/

def qosKey : Bytes := bytes "qos_orules"

/-- The setting of a restriction. -/
def rruleKey (number : ℕ) : Bytes :=
  bytes "rrule" ++ decimal number

def ndpiMaxNrules : ℕ := 50

variable (nvram : Nvram)

/-- `ndpi_migrate_qos`, with the value that it returns. -/
def ndpiMigrateQos : Nvram × Bool :=
  let src := nvram qosKey
  if src = [] then (nvram, false)
  else
    match ndpiRenameField protos (src.length * 2 + 1) src 5 with
    | some dst => (Function.update nvram qosKey dst, true)
    | none => (nvram, false)

/-- The text through a number of bars, and what stands behind it. -/
def skipBars : ℕ → Bytes → Option (Bytes × Bytes)
  | 0, text => some ([], text)
  | count + 1, text =>
    (splitFirst (ascii '|') text).bind fun (front, back) =>
      (skipBars count back).map fun (head, rest) =>
        (front ++ ascii '|' :: head, rest)

/-- `ndpi_migrate_rrule`, with the value that it returns. -/
def ndpiMigrateRrule : Nvram × Bool :=
  match skipBars 5 (nvram name) with
  | none => (nvram, false)
  | some (head, rest) =>
    match splitFirst (ascii '|') rest with
    | none => (nvram, false)
    | some (old, tail) =>
      match ndpiRenameField protos (old.length * 2 + 1) old 3 with
      | some new =>
        (Function.update nvram name (head ++ new ++ ascii '|' :: tail),
          true)
      | none => (nvram, false)

/-- The settings with rules. -/
def ruleKeys : List Bytes :=
  qosKey :: (range ndpiMaxNrules).map rruleKey

/-- A text has an old name somewhere in it, as `strstr` finds it. -/
def mentions (text old : Bytes) : Bool :=
  (splitAtKey old text).isSome

/-- The gate of `ndpi_migrate_rules`. -/
def gate : Bool :=
  ndpiRenamed.any fun entry => ruleKeys.any fun key =>
    mentions (nvram key) entry.1

/-- `ndpi_migrate_rules`: the settings, and whether they are committed. -/
def ndpiMigrateRules : Nvram × Bool :=
  if gate nvram then
    (range ndpiMaxNrules).foldl
      (fun state number =>
        let next := ndpiMigrateRrule protos (rruleKey number) state.1
        (next.1, state.2 || next.2))
      (ndpiMigrateQos protos nvram)
  else (nvram, false)

/-! ## What the loop writes -/

theorem ndpiRenameOf_eq_some {protos : Protos} {name new : Bytes}
    (hnew : ndpiRenameOf protos name = some new) :
    ∃ entry ∈ ndpiRenamed, equalNoCase name entry.1 = true ∧
      Applies protos entry ∧ new = entry.2 := by
  rw [ndpiRenameOf] at hnew
  split at hnew
  swap
  · cases hnew
  next entry hfind =>
  split at hnew
  · next happlies =>
    have hequal : equalNoCase name entry.1 = true := by
      simpa using find?_some hfind
    exact ⟨entry, mem_of_find?_eq_some hfind, hequal, happlies,
      (Option.some.inj hnew).symm⟩
  · cases hnew

/-- What stands in a field behind the loop. -/
def newName : Bytes :=
  (renameName protos name).getD name

theorem renameName_eq_some {protos : Protos} {name new : Bytes}
    (hnew : renameName protos name = some new) :
    ∃ entry ∈ ndpiRenamed, equalNoCase name entry.1 = true ∧
      Applies protos entry ∧ new = entry.2 := by
  rw [renameName] at hnew
  split at hnew
  · exact ndpiRenameOf_eq_some hnew
  · cases hnew

theorem length_eq_of_equalNoCase {left right : Bytes}
    (hequal : equalNoCase left right = true) : left.length = right.length := by
  have hmap := of_decide_eq_true hequal
  simpa using congrArg List.length hmap

/-- The new names are shorter. -/
theorem length_newName_le : (newName protos name).length ≤ name.length := by
  rw [newName]
  cases hnew : renameName protos name with
  | none => exact le_rfl
  | some new =>
    obtain ⟨entry, hentry, hequal, -, rfl⟩ := renameName_eq_some hnew
    have hshorter : ∀ entry ∈ ndpiRenamed,
        entry.2.length ≤ entry.1.length := by decide
    rw [length_eq_of_equalNoCase hequal]
    exact hshorter entry hentry

theorem renameName_nil : renameName protos [] = none := by
  cases hnew : renameName protos [] with
  | none => rfl
  | some new =>
    obtain ⟨entry, hentry, hequal, -, -⟩ := renameName_eq_some hnew
    have hlength : ∀ entry ∈ ndpiRenamed, entry.1 ≠ [] := by decide
    exact absurd (eq_nil_of_length_eq_zero
      (length_eq_of_equalNoCase hequal).symm) (hlength entry hentry)

/-- A text without the two separators. -/
def Plain (text : Bytes) : Prop :=
  ∀ char ∈ text, isSep char = false

section
variable {protos : Protos} {dstSz field idx : ℕ} {dst : Bytes} {changed : Bool}

/-- Outside the field one character after the other is copied. -/
theorem renameLoop_cons (hidx : idx ≠ field) {char : Byte} {rest : Bytes}
    (hfits : dst.length + (char :: rest).length < dstSz) :
    renameLoop protos dstSz field idx dst changed (char :: rest) =
      renameLoop protos dstSz field (nextIdx idx char) (dst ++ [char]) changed
        rest := by
  rw [length_cons] at hfits
  rw [renameLoop, if_neg hidx, if_neg (by omega)]

theorem nextIdx_of_not_isSep {char : Byte} (hchar : isSep char = false) :
    nextIdx idx char = idx := by
  rw [isSep, Bool.or_eq_false_iff, decide_eq_false_iff_not,
    decide_eq_false_iff_not] at hchar
  rw [nextIdx, if_neg hchar.1, if_neg hchar.2]

theorem renameLoop_copy (hidx : idx ≠ field) {part rest : Bytes}
    (hpart : Plain part) (hfits : dst.length + (part ++ rest).length < dstSz) :
    renameLoop protos dstSz field idx dst changed (part ++ rest) =
      renameLoop protos dstSz field idx (dst ++ part) changed rest := by
  induction part generalizing dst with
  | nil => rw [nil_append, append_nil]
  | cons char part ih =>
    rw [Plain, forall_mem_cons] at hpart
    rw [cons_append] at hfits ⊢
    rw [renameLoop_cons hidx hfits, nextIdx_of_not_isSep hpart.1,
      ih hpart.2, append_assoc]
    · rfl
    · rw [length_append, length_singleton]
      rw [length_cons] at hfits
      omega

/-- What the loop does at the end of a part. -/
def renameRest (protos : Protos) (dstSz field idx : ℕ) (dst : Bytes)
    (changed : Bool) (rest : Bytes) : Option (Bytes × Bool) :=
  match rest with
  | [] => some (dst, changed)
  | sep :: behind =>
    renameLoop protos dstSz field (nextIdx idx sep) (dst ++ [sep]) changed
      behind

/-- A text that goes on with a separator, or not at all. -/
def AtSep (rest : Bytes) : Prop :=
  ∀ char, rest.head? = some char → isSep char = true

theorem takeWhile_plain {part rest : Bytes} (hpart : Plain part)
    (hrest : AtSep rest) :
    (part ++ rest).takeWhile (!isSep ·) = part ∧
      (part ++ rest).dropWhile (!isSep ·) = rest := by
  have hall : ∀ char ∈ part, (!isSep char) = true := by
    intro char hchar
    rw [hpart char hchar]
    rfl
  rw [takeWhile_append_of_pos hall, dropWhile_append_of_pos hall]
  cases rest with
  | nil => simp
  | cons char rest =>
    have hstop := hrest char rfl
    simp [hstop]

/-- One part of a record, up to the separator behind it. -/
theorem renameLoop_part {part rest : Bytes} (hpart : Plain part)
    (hrest : AtSep rest) (hfits : dst.length + (part ++ rest).length < dstSz) :
    renameLoop protos dstSz field idx dst changed (part ++ rest) =
      renameRest protos dstSz field idx
        (dst ++ if idx = field then newName protos part else part)
        (changed || (decide (idx = field) && (renameName protos part).isSome))
        rest := by
  by_cases hidx : idx = field
  · subst hidx
    rw [if_pos rfl, decide_eq_true rfl, Bool.true_and]
    have hlength := length_newName_le protos part
    rw [length_append] at hfits
    obtain ⟨htake, hdrop⟩ := takeWhile_plain hpart hrest
    cases hsrc : part ++ rest with
    | nil =>
      obtain ⟨rfl, rfl⟩ := append_eq_nil_iff.mp hsrc
      simp [renameLoop, renameRest, newName, renameName_nil]
    | cons char others =>
      rw [hsrc] at htake hdrop
      rw [renameLoop, if_pos rfl]
      simp only [htake]
      rw [if_neg (by rw [← newName]; omega)]
      split
      · next hbehind =>
        rw [hdrop] at hbehind
        rw [hbehind]
        rfl
      · next sep behind hbehind =>
        rw [hdrop] at hbehind
        rw [hbehind, length_cons] at hfits
        rw [if_neg (by rw [← newName]; omega), hbehind]
        rfl
  · rw [renameLoop_copy hidx hpart hfits, if_neg hidx, decide_eq_false hidx,
      Bool.false_and, Bool.or_false]
    cases rest with
    | nil => rw [renameLoop, renameRest]
    | cons sep behind =>
      rw [renameRest, renameLoop_cons hidx]
      rw [length_append] at hfits ⊢
      omega

end

section
variable (protos : Protos) (field : ℕ)

/-- The parts of a record from a number on, with the field renamed. -/
def changeFrom : ℕ → List Bytes → List Bytes
  | _, [] => []
  | idx, part :: parts =>
    (if idx = field then newName protos part else part) ::
      changeFrom (idx + 1) parts

/-- The field is among the parts from a number on, and has a new name. -/
def hitFrom : ℕ → List Bytes → Bool
  | _, [] => false
  | idx, part :: parts =>
    (decide (idx = field) && (renameName protos part).isSome) ||
      hitFrom (idx + 1) parts

theorem changeFrom_eq (idx : ℕ) (parts : List Bytes) :
    changeFrom protos field idx parts =
      if idx ≤ field then parts.modify (field - idx) (newName protos)
      else parts := by
  induction parts generalizing idx with
  | nil => simp [changeFrom]
  | cons part parts ih =>
    rw [changeFrom, ih, modify_cons]
    by_cases hidx : idx = field
    · simp [hidx]
    · rw [if_neg hidx]
      by_cases hle : idx ≤ field
      · rw [if_pos hle, if_pos (by omega), if_neg (by omega), Nat.sub_sub]
      · rw [if_neg hle, if_neg (by omega)]

theorem hitFrom_eq (idx : ℕ) (parts : List Bytes) :
    hitFrom protos field idx parts =
      (decide (idx ≤ field) && parts[field - idx]?.any fun part =>
        (renameName protos part).isSome) := by
  induction parts generalizing idx with
  | nil => simp [hitFrom]
  | cons part parts ih =>
    rw [hitFrom, ih]
    by_cases hidx : idx = field
    · simp [hidx]
    rw [decide_eq_false hidx, Bool.false_and, Bool.false_or]
    by_cases hle : idx ≤ field
    · obtain ⟨gap, rfl⟩ : ∃ gap, field = idx + 1 + gap :=
        ⟨field - (idx + 1), by omega⟩
      have hgap : idx + 1 + gap - idx = gap + 1 := by omega
      rw [decide_eq_true hle, decide_eq_true (by omega), hgap,
        Nat.add_sub_cancel_left, getElem?_cons_succ]
    · rw [decide_eq_false hle, decide_eq_false (by omega), Bool.false_and,
        Bool.false_and]

theorem length_changeFrom_le (idx : ℕ) (parts : List Bytes) :
    ([ascii '<'].intercalate (changeFrom protos field idx parts)).length ≤
      ([ascii '<'].intercalate parts).length := by
  induction parts generalizing idx with
  | nil => exact le_rfl
  | cons part parts ih =>
    have hpart : (if idx = field then newName protos part
        else part).length ≤ part.length := by
      split
      · exact length_newName_le protos part
      · exact le_rfl
    cases parts with
    | nil => simpa [changeFrom] using hpart
    | cons second parts =>
      have hrest := ih (idx + 1)
      rw [changeFrom] at hrest ⊢
      rw [changeFrom, intercalate_cons_cons, intercalate_cons_cons]
      simp only [length_append, length_singleton]
      omega

end

/-- A text that goes on with the next record, or not at all. -/
def AtRecord (rest : Bytes) : Prop :=
  ∀ char, rest.head? = some char → char = ascii '>'

theorem AtRecord.atSep {rest : Bytes} (hrest : AtRecord rest) : AtSep rest := by
  intro char hchar
  rw [hrest char hchar]
  rfl

section
variable {protos : Protos} {dstSz field : ℕ} {changed : Bool}

theorem renameLoop_record {parts : List Bytes} (hparts : parts ≠ [])
    (hplain : ∀ part ∈ parts, Plain part) {rest : Bytes} (hrest : AtRecord rest)
    {idx : ℕ} {dst : Bytes}
    (hfits : dst.length + ([ascii '<'].intercalate parts ++ rest).length <
      dstSz) :
    renameLoop protos dstSz field idx dst changed
        ([ascii '<'].intercalate parts ++ rest) =
      renameRest protos dstSz field 0
        (dst ++ [ascii '<'].intercalate (changeFrom protos field idx parts))
        (changed || hitFrom protos field idx parts) rest := by
  induction parts generalizing idx dst changed with
  | nil => exact absurd rfl hparts
  | cons part parts ih =>
    rw [forall_mem_cons] at hplain
    have hlength : (if idx = field then newName protos part
        else part).length ≤ part.length := by
      split
      · exact length_newName_le protos part
      · exact le_rfl
    cases parts with
    | nil =>
      rw [intercalate_singleton] at hfits ⊢
      rw [renameLoop_part hplain.1 hrest.atSep hfits, changeFrom,
        changeFrom, hitFrom, hitFrom, Bool.or_false, intercalate_singleton]
      cases rest with
      | nil => rfl
      | cons char rest =>
        rw [hrest char rfl]
        rfl
    | cons second parts =>
      rw [intercalate_cons_cons, append_assoc, append_assoc]
        at hfits ⊢
      have hsep : AtSep ([ascii '<'] ++
          ([ascii '<'].intercalate (second :: parts) ++ rest)) := by
        intro char hchar
        cases hchar
        rfl
      rw [renameLoop_part hplain.1 hsep hfits, singleton_append,
        renameRest, show nextIdx idx (ascii '<') = idx + 1 from rfl,
        ih (cons_ne_nil _ _) hplain.2]
      · simp only [changeFrom, hitFrom, intercalate_cons_cons,
          Bool.or_assoc, append_assoc]
      · simp only [length_append, length_singleton] at hfits ⊢
        omega

/-- A record of a text, with the field renamed. -/
abbrev changeRecord (protos : Protos) (field : ℕ) (record : Bytes) : Bytes :=
  mapRecord (ascii '<') field (newName protos) record

def hitRecord (protos : Protos) (field : ℕ) (record : Bytes) : Bool :=
  (record.splitOn (ascii '<'))[field]?.any fun part =>
    (renameName protos part).isSome

theorem plain_of_mem_splitOn {record part : Bytes}
    (hrecord : ascii '>' ∉ record)
    (hpart : part ∈ record.splitOn (ascii '<')) : Plain part := by
  intro char hchar
  rw [isSep, Bool.or_eq_false_iff, decide_eq_false_iff_not,
    decide_eq_false_iff_not]
  constructor
  · rintro rfl
    exact not_mem_of_mem_splitOn hpart hchar
  · rintro rfl
    exact hrecord (subset_of_mem_splitOn hpart hchar)

theorem length_changeRecord_le (record : Bytes) :
    (changeRecord protos field record).length ≤ record.length := by
  have hlength := length_changeFrom_le protos field 0
    (record.splitOn (ascii '<'))
  rwa [changeFrom_eq, if_pos (Nat.zero_le field), Nat.sub_zero,
    intercalate_splitOn] at hlength

theorem renameLoop_changeRecord {record rest : Bytes}
    (hrecord : ascii '>' ∉ record) (hrest : AtRecord rest) {dst : Bytes}
    (hfits : dst.length + (record ++ rest).length < dstSz) :
    renameLoop protos dstSz field 0 dst changed (record ++ rest) =
      renameRest protos dstSz field 0 (dst ++ changeRecord protos field record)
        (changed || hitRecord protos field record) rest := by
  have hjoin : [ascii '<'].intercalate (record.splitOn (ascii '<')) = record :=
    intercalate_splitOn _
  have hround : renameLoop protos dstSz field 0 dst changed
      ([ascii '<'].intercalate (record.splitOn (ascii '<')) ++ rest) = _ :=
    renameLoop_record (splitOn_ne_nil (ascii '<') record)
      (fun part hpart => plain_of_mem_splitOn hrecord hpart) hrest
      (by rwa [hjoin])
  rw [hjoin, changeFrom_eq, hitFrom_eq, if_pos (Nat.zero_le field),
    decide_eq_true (Nat.zero_le field), Bool.true_and, Nat.sub_zero] at hround
  exact hround

/-- All records of a text. -/
theorem renameLoop_records {records : List Bytes} (hrecords : records ≠ [])
    (hplain : ∀ record ∈ records, ascii '>' ∉ record) {dst : Bytes}
    (hfits : dst.length + ([ascii '>'].intercalate records).length < dstSz) :
    renameLoop protos dstSz field 0 dst changed
        ([ascii '>'].intercalate records) =
      some (dst ++ [ascii '>'].intercalate
          (records.map (changeRecord protos field)),
        changed || records.any (hitRecord protos field)) := by
  induction records generalizing dst changed with
  | nil => exact absurd rfl hrecords
  | cons record records ih =>
    rw [forall_mem_cons] at hplain
    have hlength : (changeRecord protos field record).length ≤
        record.length := length_changeRecord_le record
    cases records with
    | nil =>
      have hend : AtRecord [] := fun char hchar => by cases hchar
      rw [intercalate_singleton] at hfits ⊢
      rw [← append_nil record] at hfits
      have hround : renameLoop protos dstSz field 0 dst changed
          (record ++ []) = _ :=
        renameLoop_changeRecord hplain.1 hend hfits
      rw [append_nil] at hround
      rw [hround]
      simp [renameRest]
    | cons second records =>
      have hnext : AtRecord ([ascii '>'] ++
          [ascii '>'].intercalate (second :: records)) := by
        intro char hchar
        cases hchar
        rfl
      rw [intercalate_cons_cons, append_assoc] at hfits ⊢
      rw [renameLoop_changeRecord hplain.1 hnext hfits,
        singleton_append, renameRest, show nextIdx 0 (ascii '>') = 0 from rfl,
        ih (cons_ne_nil _ _) hplain.2]
      · simp only [map_cons, intercalate_cons_cons, any_cons,
          Bool.or_assoc, append_assoc]
      · simp only [length_append, length_singleton] at hfits ⊢
        omega

/-- `ndpi_rename_field` puts the new names into the fields, and reports whether
there were any. -/
theorem ndpiRenameField_eq {src : Bytes} (hfits : src.length < dstSz) :
    ndpiRenameField protos dstSz src field =
      if (fieldsAt (ascii '>') (ascii '<') field src).any
          (fun name => (renameName protos name).isSome) then
        some (mapField (ascii '>') (ascii '<') field (newName protos) src)
      else none := by
  have hjoin : [ascii '>'].intercalate (src.splitOn (ascii '>')) = src :=
    intercalate_splitOn _
  have hloop : renameLoop protos dstSz field 0 [] false
      ([ascii '>'].intercalate (src.splitOn (ascii '>'))) = _ :=
    renameLoop_records (splitOn_ne_nil (ascii '>') src)
      (fun record hrecord => not_mem_of_mem_splitOn hrecord) (by
        rw [hjoin]
        simpa using hfits)
  have hany : (src.splitOn (ascii '>')).any (hitRecord protos field) =
      (fieldsAt (ascii '>') (ascii '<') field src).any
        fun name => (renameName protos name).isSome := by
    rw [fieldsAt, any_filterMap]
    refine congrArg (List.any _) (funext fun record => ?_)
    rw [hitRecord]
    cases (record.splitOn (ascii '<'))[field]? with
    | none => rfl
    | some part => rfl
  rw [hjoin] at hloop
  rw [ndpiRenameField, hloop, nil_append, Bool.false_or, hany]
  cases (fieldsAt (ascii '>') (ascii '<') field src).any
      fun name => (renameName protos name).isSome with
  | false => rfl
  | true => rfl

end

end Tomato64.Ndpi
