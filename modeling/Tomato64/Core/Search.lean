import Tomato64.Core.Text

/-!
# Searching for a key

`strstr` finds the first occurrence of a key.  No occurrence of the key ends
before that one does, and this is all that has to be known about the text in
front of it.
-/

namespace Tomato64.Search

open List Text

variable {key text before behind : Bytes}

/-- No occurrence of the key ends before the one behind `before`. -/
def NoneBefore (key before : Bytes) : Prop :=
  ¬ key <:+: before ++ key.dropLast

theorem noneBefore_nil (hkey : key ≠ []) : NoneBefore key [] := by
  intro hinfix
  have hlength := hinfix.length_le
  have hpos := length_pos_iff.mpr hkey
  rw [nil_append, length_dropLast] at hlength
  omega

theorem noneBefore_cons_iff {char : Byte} :
    NoneBefore key (char :: before) ↔
      ¬ key <+: char :: (before ++ key.dropLast) ∧ NoneBefore key before := by
  rw [NoneBefore, cons_append, infix_cons_iff, not_or, NoneBefore]

/-- An occurrence behind `before` does not start at the front of it. -/
theorem isPrefix_dropLast_iff (hkey : key ≠ []) (char : Byte)
    (before behind : Bytes) :
    key <+: char :: (before ++ key.dropLast) ↔
      key <+: char :: (before ++ (key ++ behind)) := by
  have hfront : char :: (before ++ key.dropLast) <+:
      char :: (before ++ (key ++ behind)) := by
    rw [cons_prefix_cons]
    refine ⟨rfl, ?_⟩
    rw [prefix_append_right_inj]
    exact ( dropLast_prefix key).trans (prefix_append key behind)
  constructor
  · intro hkeyPrefix
    exact hkeyPrefix.trans hfront
  intro hkeyPrefix
  apply prefix_of_prefix_length_le hkeyPrefix hfront
  have hpos := length_pos_iff.mpr hkey
  rw [length_cons, length_append, length_dropLast]
  omega

/-- What `strstr` finds. -/
theorem splitAtKey_eq_some_iff (hkey : key ≠ []) :
    splitAtKey key text = some (before, behind) ↔
      text = before ++ (key ++ behind) ∧ NoneBefore key before := by
  constructor
  · intro hcut
    induction text generalizing before with
    | nil =>
      rw [splitAtKey, if_neg hkey] at hcut
      cases hcut
    | cons char text ih =>
      rw [splitAtKey] at hcut
      split at hcut
      · next hstarts =>
        obtain ⟨tail, htail⟩ := isPrefixOf_iff_prefix.mp hstarts
        cases hcut
        rw [← htail]
        exact ⟨by simp, noneBefore_nil hkey⟩
      · next hstarts =>
        rw [Option.map_eq_some_iff] at hcut
        obtain ⟨⟨front, back⟩, hcut, hsame⟩ := hcut
        rw [Prod.mk.injEq] at hsame
        obtain ⟨rfl, rfl⟩ := hsame
        obtain ⟨rfl, hnone⟩ := ih hcut
        refine ⟨rfl, noneBefore_cons_iff.mpr ⟨?_, hnone⟩⟩
        rw [isPrefix_dropLast_iff hkey char front back]
        exact fun hleads =>
          hstarts ( isPrefixOf_iff_prefix.mpr hleads)
  · rintro ⟨rfl, hnone⟩
    induction before with
    | nil =>
      obtain ⟨first, rest, rfl⟩ := exists_cons_of_ne_nil hkey
      have hstarts : (first :: rest).isPrefixOf
          (first :: (rest ++ behind)) = true := by
        rw [ isPrefixOf_iff_prefix]
        exact prefix_append (first :: rest) behind
      rw [nil_append, cons_append, splitAtKey, if_pos hstarts]
      simp
    | cons char before ih =>
      obtain ⟨hstarts, hnone⟩ := noneBefore_cons_iff.mp hnone
      rw [isPrefix_dropLast_iff hkey char before behind,
        ← isPrefixOf_iff_prefix] at hstarts
      rw [cons_append, splitAtKey, if_neg hstarts, ih hnone]
      rfl

theorem splitAtKey_isSome_iff (hkey : key ≠ []) :
    (splitAtKey key text).isSome = true ↔ key <:+: text := by
  constructor
  · intro hsome
    obtain ⟨⟨before, behind⟩, hcut⟩ := Option.isSome_iff_exists.mp hsome
    obtain ⟨rfl, -⟩ := (splitAtKey_eq_some_iff hkey).mp hcut
    exact ⟨before, behind, by rw [append_assoc]⟩
  intro hinfix
  induction text with
  | nil => exact absurd (infix_nil.mp hinfix) hkey
  | cons char text ih =>
    rw [splitAtKey]
    split
    · rfl
    next hstarts =>
    rw [Option.isSome_map]
    rcases infix_cons_iff.mp hinfix with hleads | hinfix
    · exact absurd ( isPrefixOf_iff_prefix.mpr hleads) hstarts
    · exact ih hinfix

variable {first second : Byte} {left right : Bytes}

end Tomato64.Search
