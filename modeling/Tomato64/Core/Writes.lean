import Mathlib.Data.List.Sort
import Mathlib.Logic.Function.Basic

/-!
# Arrays written in order

A program that fills an array from a list of entries keeps, for each key, the
last entry.  So only the order among the entries of one key matters, and a
stable sort in between changes nothing.
-/

namespace Tomato64.Writes

open List

variable {α Key Value : Type*}

section Stable

variable {r : α → α → Prop} [DecidableRel r] {p : α → Bool}

theorem filter_orderedInsert (hr : ∀ a b, p a = true → p b = true → r a b)
    (value : α) (values : List α) :
    (values.orderedInsert r value).filter p = (value :: values).filter p := by
  induction values with
  | nil => rfl
  | cons head values ih =>
    by_cases hle : r value head
    · rw [orderedInsert_cons_of_le r values hle]
    rw [orderedInsert_of_not_le r values hle]
    -- The value moves behind `head`, so they are not both selected.
    by_cases hvalue : p value = true
    · have hhead : p head = false := by
        by_contra htrue
        exact hle (hr value head hvalue (by simpa using htrue))
      rw [filter_cons_of_neg (by simp [hhead]), ih]
      simp [hvalue, hhead]
    · rw [filter_cons, ih]
      simp [hvalue, filter_cons]

/-- Entries that are all related keep their order. -/
theorem filter_insertionSort (hr : ∀ a b, p a = true → p b = true → r a b)
    (values : List α) : (values.insertionSort r).filter p = values.filter p := by
  induction values with
  | nil => rfl
  | cons value values ih =>
    rw [insertionSort_cons, filter_orderedInsert hr, filter_cons, ih,
      filter_cons]

end Stable

variable [DecidableEq Key] (entries : List (Key × Value))

def written (array : Key → Value) : Key → Value :=
  entries.foldl (fun array entry => Function.update array entry.1 entry.2) array

def atKey (key : Key) (entries : List (Key × Value)) : List (Key × Value) :=
  entries.filter (·.1 = key)

/-- The last entry of a key stays. -/
theorem written_eq (array : Key → Value) (key : Key) :
    written entries array key =
      ((atKey key entries).getLast?.map Prod.snd).getD (array key) := by
  unfold written atKey
  induction entries generalizing array with
  | nil => rfl
  | cons entry entries ih =>
    rw [foldl_cons, ih]
    by_cases hkey : entry.1 = key
    · subst hkey
      rw [filter_cons_of_pos (by simp), getLast?_cons, Function.update_self]
      cases (entries.filter (·.1 = entry.1)).getLast? with
      | none => rfl
      | some last => rfl
    · rw [filter_cons_of_neg (by simp [hkey]),
        Function.update_of_ne (Ne.symm hkey)]

theorem written_eq_of_forall {entries : List (Key × Value)}
    {array : Key → Value} {key : Key} {value : Value}
    (hall : ∀ other, (key, other) ∈ entries → other = value)
    (hsome : (∃ other, (key, other) ∈ entries) ∨ array key = value) :
    written entries array key = value := by
  rw [written_eq]
  cases hlast : (atKey key entries).getLast? with
  | some last =>
    have hmem := mem_filter.mp (mem_of_getLast? hlast)
    obtain ⟨other, rest⟩ := last
    obtain rfl : other = key := by simpa using hmem.2
    exact hall rest hmem.1
  | none =>
    rw [getLast?_eq_none_iff] at hlast
    rcases hsome with ⟨other, hother⟩ | harray
    · have hmem : (key, other) ∈ atKey key entries :=
        mem_filter.mpr ⟨hother, by simp⟩
      rw [hlast] at hmem
      cases hmem
    · exact harray

theorem atKey_filterMap (f : α → Option (Key × Value)) (key : Key)
    (values : List α) :
    atKey key (values.filterMap f) =
      (values.filter fun value => (f value).any (·.1 = key)).filterMap f := by
  unfold atKey
  induction values with
  | nil => rfl
  | cons value values ih =>
    cases hvalue : f value with
    | none => simp [hvalue, ih]
    | some entry =>
      by_cases hkey : entry.1 = key
      · simp [hvalue, hkey, ih]
      · simp [hvalue, hkey, ih]

/-- A stable sort that does not tell entries of one key apart leaves the array
as it is. -/
theorem written_insertionSort {r : α → α → Prop} [DecidableRel r]
    (f : α → Option (Key × Value))
    (hr : ∀ a b left right, f a = some left → f b = some right →
      left.1 = right.1 → r a b) (values : List α) (array : Key → Value) :
    written ((values.insertionSort r).filterMap f) array =
      written (values.filterMap f) array := by
  funext key
  rw [written_eq, written_eq, atKey_filterMap, atKey_filterMap,
    filter_insertionSort]
  intro a b ha hb
  simp only [Option.any_eq_true, decide_eq_true_eq] at ha hb
  obtain ⟨left, hleft, hlkey⟩ := ha
  obtain ⟨right, hright, hrkey⟩ := hb
  exact hr a b left right hleft hright (hlkey.trans hrkey.symm)

end Tomato64.Writes
