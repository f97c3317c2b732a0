import Mathlib.Data.List.Basic
import Tomato64.Core.Split

/-!
# Fields of records

Settings are often lists of records with one separator, and each record a list
of fields with another one.  This module changes one field of every record and
says what that does to the text.
-/

namespace Tomato64.Fields

open List Split

variable {α : Type*} [DecidableEq α]

def mapRecord (inner : α) (index : ℕ) (change : List α → List α)
    (record : List α) : List α :=
  [inner].intercalate ((record.splitOn inner).modify index change)

def mapField (outer inner : α) (index : ℕ) (change : List α → List α)
    (text : List α) : List α :=
  [outer].intercalate
    ((text.splitOn outer).map (mapRecord inner index change))

/-- The fields with an index, one for each record that has so many. -/
def fieldsAt (outer inner : α) (index : ℕ) (text : List α) : List (List α) :=
  (text.splitOn outer).filterMap fun record => (record.splitOn inner)[index]?

section
variable {outer inner : α} {index : ℕ} {change : List α → List α}

omit [DecidableEq α] in
theorem mem_or_exists_of_mem_modify {parts : List (List α)} {part : List α}
    (hpart : part ∈ parts.modify index change) :
    part ∈ parts ∨ ∃ old ∈ parts, part = change old := by
  obtain ⟨position, hposition⟩ := mem_iff_getElem?.mp hpart
  rw [getElem?_modify] at hposition
  obtain ⟨old, hold, rfl⟩ := Option.map_eq_some_iff.mp hposition
  have hmem := mem_of_getElem? hold
  split
  · exact Or.inr ⟨old, hmem, rfl⟩
  · exact Or.inl hmem

theorem splitOn_mapRecord (record : List α)
    (hchange : ∀ part, inner ∉ part → inner ∉ change part) :
    (mapRecord inner index change record).splitOn inner =
      (record.splitOn inner).modify index change := by
  refine splitOn_intercalate inner (fun part hpart => ?_) ?_
  · obtain hold | ⟨old, hold, rfl⟩ := mem_or_exists_of_mem_modify hpart
    · exact not_mem_of_mem_splitOn hold
    · exact hchange old (not_mem_of_mem_splitOn hold)
  intro hnil
  have hlength := congrArg List.length hnil
  rw [length_modify] at hlength
  exact splitOn_ne_nil inner record
    (eq_nil_of_length_eq_zero hlength)

omit [DecidableEq α] in
theorem exists_mem_of_mem_intercalate {sep value : α}
    {parts : List (List α)} (hvalue : value ≠ sep)
    (hmem : value ∈ [sep].intercalate parts) : ∃ part ∈ parts, value ∈ part :=
  (mem_intercalate.1 hmem).resolve_right fun hsep => hvalue hsep.1

theorem not_mem_mapRecord {record : List α} (hdiffer : outer ≠ inner)
    (hchange : ∀ part, outer ∉ part → outer ∉ change part)
    (hrecord : outer ∉ record) :
    outer ∉ mapRecord inner index change record := by
  intro hmem
  obtain ⟨part, hpart, houter⟩ := exists_mem_of_mem_intercalate hdiffer hmem
  obtain hold | ⟨old, hold, rfl⟩ := mem_or_exists_of_mem_modify hpart
  · exact hrecord (subset_of_mem_splitOn hold houter)
  · exact hchange old (fun hmem => hrecord (subset_of_mem_splitOn hold hmem))
      houter

/-- A change that puts no separators into fields. -/
structure Keeps (outer inner : α) (change : List α → List α) : Prop where
  outer : ∀ part, outer ∉ part → outer ∉ change part
  inner : ∀ part, inner ∉ part → inner ∉ change part

theorem splitOn_mapField (text : List α) (hdiffer : outer ≠ inner)
    (hkeeps : Keeps outer inner change) :
    (mapField outer inner index change text).splitOn outer =
      (text.splitOn outer).map (mapRecord inner index change) := by
  refine splitOn_intercalate outer (fun record hrecord => ?_) ?_
  · obtain ⟨old, hold, rfl⟩ := mem_map.mp hrecord
    exact not_mem_mapRecord hdiffer hkeeps.outer (not_mem_of_mem_splitOn hold)
  · exact fun hnil =>
      splitOn_ne_nil outer text (map_eq_nil_iff.mp hnil)

theorem fieldsAt_mapField (text : List α) (hdiffer : outer ≠ inner)
    (hkeeps : Keeps outer inner change) :
    fieldsAt outer inner index (mapField outer inner index change text) =
      (fieldsAt outer inner index text).map change := by
  rw [fieldsAt, fieldsAt, splitOn_mapField text hdiffer hkeeps,
    filterMap_map, map_filterMap]
  refine filterMap_congr fun record _ => ?_
  rw [Function.comp_apply, splitOn_mapRecord record hkeeps.inner,
    getElem?_modify]
  simp only [if_true]
  rfl

theorem mapRecord_eq_self {record : List α}
    (hsame : ∀ part, (record.splitOn inner)[index]? = some part →
      change part = part) : mapRecord inner index change record = record := by
  have hmodify : (record.splitOn inner).modify index change =
      record.splitOn inner := by
    refine ext_getElem? fun position => ?_
    rw [getElem?_modify]
    cases hpart : (record.splitOn inner)[position]? with
    | none => rfl
    | some part =>
      rw [Option.map_eq_map, Option.map_some]
      split
      · next hposition =>
        subst hposition
        rw [hsame part hpart]
      · rfl
  rw [mapRecord, hmodify, intercalate_splitOn]

/-- A text whose fields the change leaves alone. -/
theorem mapField_eq_self {text : List α}
    (hsame : ∀ part ∈ fieldsAt outer inner index text, change part = part) :
    mapField outer inner index change text = text := by
  have hrecords : (text.splitOn outer).map (mapRecord inner index change) =
      text.splitOn outer := by
    refine (map_congr_left fun record hrecord => ?_).trans (map_id _)
    refine mapRecord_eq_self fun part hpart => hsame part ?_
    exact mem_filterMap.mpr ⟨record, hrecord, hpart⟩
  rw [mapField, hrecords, intercalate_splitOn]

/-- A value that the change does not bring in stays out of the text. -/
theorem not_mem_mapField {value : α} {text : List α} (houter : value ≠ outer)
    (hinner : value ≠ inner)
    (hchange : ∀ part, value ∉ part → value ∉ change part)
    (htext : value ∉ text) :
    value ∉ mapField outer inner index change text := by
  intro hmem
  obtain ⟨record, hrecord, hmem⟩ := exists_mem_of_mem_intercalate houter hmem
  obtain ⟨old, hold, rfl⟩ := mem_map.mp hrecord
  exact not_mem_mapRecord hinner hchange
    (fun hvalue => htext (subset_of_mem_splitOn hold hvalue)) hmem

/-- The first field of a record. -/
theorem mapRecord_zero {front back : List α} (hfront : inner ∉ front) :
    mapRecord inner 0 change (front ++ inner :: back) =
      change front ++ inner :: back := by
  have hback : [inner].intercalate (back.splitOn inner) = back :=
    intercalate_splitOn inner
  obtain ⟨first, others, hsplit⟩ :=
    exists_cons_of_ne_nil (splitOn_ne_nil inner back)
  rw [hsplit] at hback
  rw [mapRecord, splitOn_append_cons_self_of_not_mem hfront, modify_cons, if_pos rfl,
    hsplit, intercalate_cons_cons, hback, append_assoc, singleton_append]

/-- A later field of a record. -/
theorem mapRecord_succ {front back : List α} (hfront : inner ∉ front) :
    mapRecord inner (index + 1) change (front ++ inner :: back) =
      front ++ inner :: mapRecord inner index change back := by
  have hlength : ((back.splitOn inner).modify index change).length ≠ 0 := by
    rw [length_modify]
    exact fun hzero => splitOn_ne_nil inner back
      (eq_nil_of_length_eq_zero hzero)
  obtain ⟨first, others, hsplit⟩ := exists_cons_of_ne_nil
    (fun hnil => hlength (congrArg List.length hnil))
  rw [mapRecord, splitOn_append_cons_self_of_not_mem hfront, modify_cons,
    if_neg (Nat.succ_ne_zero index), Nat.add_sub_cancel, mapRecord, hsplit,
    intercalate_cons_cons, append_assoc, singleton_append]

end

end Tomato64.Fields
