import Tomato64.Quota.WindowCut

/-!
# Active windows, from the text to the packet

`rc` accepts a range list, `libxt_timerange` turns it into an array, and the
kernel looks up the time of a packet in that array.  A window is kept when the
last of these agrees with the list that was written down.

The overlap test does not see the part of a range behind the end of the span,
so a list can pass it and still not be cut as it should.
-/

namespace Tomato64.Windows

open Intervals SelectionSort Text
open List hiding flatten
open QuotaRanges Timerange

/-- The match keeps the window that the text describes. -/
def KeepsWindow (stale : Bytes → UInt64) (spec : Bytes) (weekly : Bool)
    (ranges : List Range) : Prop :=
  ∃ array, parseTimeRanges stale spec weekly = some array ∧
    array.length < rangeLength ∧ Matches (span weekly) array ranges

/-- Of the ranges that start at the very end of the span, the one that the
exchanges of the sort leave last. -/
def SortsLast (span : ℤ) (ranges : List Range) (last : Range) : Prop :=
  Leads Prod.fst span ranges (ranges.length - 1) last

/-- The lists that the match can represent: no range wraps, or one range does
and ends before every range begins, or the wraps are at the very end and what
they add is found otherwise. -/
def Representable (span : ℤ) (ranges : List Range) : Prop :=
  (∀ range ∈ ranges, ¬ Wraps range) ∨ WrapsOnce ranges ∨
    (WrapsAtEnd span ranges ∧
      ∃ last, SortsLast span ranges last ∧ FrontFound ranges last)

/-! ## Every accepted list -/

section Lists

variable {span : ℤ} {ranges : List Range}

section Perm

variable {left right : List Range}

theorem accepted_perm (haccepted : Accepted span left)
    (hperm : left.Perm right) : Accepted span right where
  nonempty := fun hnil =>
    haccepted.nonempty (perm_nil.1 (hnil ▸ hperm))
  count := hperm.length_eq ▸ haccepted.count
  bounds := fun range hrange =>
    haccepted.bounds range (hperm.mem_iff.2 hrange)
  proper := fun range hrange =>
    haccepted.proper range (hperm.mem_iff.2 hrange)
  disjoint := (hperm.pairwise_iff fun {one other} hpair =>
    (overlap_comm span other one).trans hpair).1 haccepted.disjoint
  covered_lt := by
    rw [covered, ← (hperm.map _).sum_eq]
    exact haccepted.covered_lt

theorem listed_perm (hperm : left.Perm right) (second : ℤ) :
    Listed left second ↔ Listed right second := by
  simp [Listed, hperm.mem_iff]

theorem wrapsOnce_perm (hperm : left.Perm right) (honce : WrapsOnce left) :
    WrapsOnce right := by
  obtain ⟨wrap, hwrap, hbefore⟩ := honce
  have hfilter := hperm.filter fun range => Wraps range
  rw [hwrap] at hfilter
  exact ⟨wrap, perm_singleton.1 hfilter.symm,
    by simpa [hperm.mem_iff] using hbefore⟩

theorem wrapsAtEnd_perm (hperm : left.Perm right)
    (hends : WrapsAtEnd span left) : WrapsAtEnd span right :=
  ⟨by simpa [hperm.mem_iff] using hends.start,
    by simpa [hperm.mem_iff] using hends.stop⟩

theorem frontFound_perm (hperm : left.Perm right) (last : Range) :
    FrontFound left last ↔ FrontFound right last := by
  simp [FrontFound, hperm.mem_iff]

end Perm

variable (haccepted : Accepted span ranges)
include haccepted

theorem smallStart_of_accepted
    (hspan : span < 2 ^ 31) : ∀ range ∈ ranges, SmallStart range := by
  intro range hrange
  have hbounds := haccepted.bounds range hrange
  exact ⟨hbounds.1, by omega⟩

/-- Two ranges that start together start at the very end. -/
theorem tiesAt_of_accepted : TiesAt Prod.fst span ranges := by
  refine haccepted.disjoint.imp_of_mem ?_
  intro left right hleft hright hdisjoint hsame
  have hleftBounds := haccepted.bounds left hleft
  have hrightBounds := haccepted.bounds right hright
  have hleftProper := haccepted.proper left hleft
  have hrightProper := haccepted.proper right hright
  rw [overlap_eq_false, unwrapEnd, unwrapEnd] at hdisjoint
  split at hdisjoint <;> split at hdisjoint <;> omega

omit haccepted in
theorem sortRanges_perm (ranges : List Range) :
    (sortRanges ranges).Perm ranges :=
  sortWith_perm nextStartIndex ranges

theorem sorted_sortRanges
    (hspan : span < 2 ^ 31) : Sorted span (sortRanges ranges) :=
  ⟨accepted_perm haccepted (sortRanges_perm ranges).symm,
    sortWith_sorted finds_nextStartIndex (smallStart_of_accepted haccepted hspan)⟩

theorem sortsLast_iff
    (hspan : span < 2 ^ 31) (hwrap : ∃ range ∈ ranges, range.1 = span)
    (last : Range) :
    (sortRanges ranges).getLast? = some last ↔ SortsLast span ranges last := by
  have hleads : ∀ last, (sortRanges ranges).getLast? = some last →
      SortsLast span ranges last := fun last hlast =>
    leads_getLast finds_nextStartIndex (smallStart_of_accepted haccepted hspan)
      (fun range hrange => (haccepted.bounds range hrange).2.1)
      (tiesAt_of_accepted haccepted) hwrap hlast
  refine ⟨hleads last, fun hlast => ?_⟩
  have hne := (sorted_sortRanges haccepted hspan).accepted.nonempty
  have hsome := getLast?_eq_some_getLast hne
  rw [hsome, Leads.unique (hleads _ hsome) hlast]

theorem matches_sortRanges_iff (hspan : span < 2 ^ 31) :
    Matches span (arrayOf span (sortRanges ranges)) ranges ↔
      Representable span ranges := by
  have hperm := sortRanges_perm ranges
  have hsame : Matches span (arrayOf span (sortRanges ranges)) ranges ↔
      Matches span (arrayOf span (sortRanges ranges)) (sortRanges ranges) := by
    simp only [Matches, listed_perm hperm]
  have honce : WrapsOnce (sortRanges ranges) ↔ WrapsOnce ranges :=
    ⟨wrapsOnce_perm hperm, wrapsOnce_perm hperm.symm⟩
  have hends : WrapsAtEnd span (sortRanges ranges) ↔ WrapsAtEnd span ranges :=
    ⟨wrapsAtEnd_perm hperm, wrapsAtEnd_perm hperm.symm⟩
  rw [hsame, (sorted_sortRanges haccepted hspan).matches_iff, Representable,
    honce, hends]
  simp only [hperm.mem_iff, frontFound_perm hperm]
  by_cases hnone : ∀ range ∈ ranges, ¬ Wraps range
  · exact iff_of_true (.inl hnone) (.inl hnone)
  refine or_congr_right (or_congr_right (and_congr_right fun hends => ?_))
  push Not at hnone
  obtain ⟨wrap, hwrap, hwraps⟩ := hnone
  have hlast := sortsLast_iff haccepted hspan
    ⟨wrap, hwrap, hends.start wrap hwrap hwraps⟩
  simp only [hlast]

theorem length_arrayOf :
    (arrayOf span (sortRanges ranges)).length < rangeLength := by
  have hcut := length_cutRanges span (join (sortRanges ranges))
  have hjoin := length_join_le (sortRanges ranges)
  have hcount := haccepted.count
  have hperm := (sortRanges_perm ranges).length_eq
  rw [arrayOf, Intervals.length_flatten, rangeLength]
  rw [quotaRangeMax] at hcount
  omega

end Lists

/-- The array that an accepted text is turned into. -/
theorem parseTimeRanges_eq (stale : Bytes → UInt64) {spec : Bytes}
    {weekly : Bool} {ranges : List Range}
    (haccepted : Accepted (span weekly) ranges)
    (hpieces : Forall₂ (RangeText weekly) (spec.splitOn 44) ranges) :
    parseTimeRanges stale spec weekly =
      some (arrayOf (span weekly) (sortRanges ranges)) := by
  have hspan : span weekly < 2 ^ 31 := by cases weekly <;> decide
  have hsorted := sorted_sortRanges haccepted hspan
  have hstarts : ranges.takeWhile (fun range => range.1 ≠ -1) = ranges := by
    apply takeWhile_eq_self_iff.2
    intro range hrange
    have hbounds := haccepted.bounds range hrange
    rw [decide_eq_true_eq]
    omega
  have hflat : (flatten (sortRanges ranges)).takeWhile
      (fun value => value ≠ -1) = flatten (sortRanges ranges) := by
    apply takeWhile_eq_self_iff.2
    intro value hvalue
    obtain ⟨range, hrange, hbound⟩ := mem_flatMap.1 hvalue
    have hbounds := hsorted.accepted.bounds range hrange
    rw [decide_eq_true_eq]
    simp only [mem_cons, not_mem_nil, or_false] at hbound
    omega
  have hoverlap := overlapFound_eq_false.2 haccepted.disjoint
  have hne : sortRanges ranges ≠ [] := hsorted.accepted.nonempty
  obtain ⟨first, others, hcons⟩ := exists_cons_of_ne_nil hne
  obtain ⟨upper, rest, hjoin⟩ := exists_join_cons first others
  have hwhole := hsorted.not_whole (first.1, upper) (by
    rw [hcons, hjoin]
    exact mem_cons_self)
  simp only [parseTimeRanges, mapM_parsePiece stale hpieces, hoverlap, hstarts,
    hflat, dropTouching_flatten hsorted.accepted.proper, Bool.false_eq_true,
    if_false]
  rw [arrayOf, hcons, hjoin, adjustRanges_flatten hwhole]

/-- The window of an accepted range list is kept by the match exactly when the
list is one that the match can represent. -/
theorem keepsWindow_iff (stale : Bytes → UInt64) {spec : Bytes} {weekly : Bool}
    {ranges : List Range} (hvalid : quotaValidRanges spec weekly = true)
    (hlisted : listedRanges spec weekly = some ranges) :
    KeepsWindow stale spec weekly ranges ↔
      Representable (span weekly) ranges := by
  obtain ⟨others, hothers, haccepted, hpieces⟩ :=
    exists_of_quotaValidRanges hvalid
  cases hlisted.symm.trans hothers
  have hspan : span weekly < 2 ^ 31 := by cases weekly <;> decide
  rw [← matches_sortRanges_iff haccepted hspan, KeepsWindow,
    parseTimeRanges_eq stale haccepted hpieces]
  simp [length_arrayOf haccepted]

/-- A night that ends before the only other range begins is kept. -/
theorem keepsWindow_night :
    KeepsWindow (fun _ => 0) (bytes "22:00-02:00,12:00-13:00") false
      [(79200, 7200), (43200, 46800)] := by
  refine (keepsWindow_iff _ (by decide) (by decide)).2
    (.inr (.inl ⟨(79200, 7200), by decide, by decide⟩))

/-- A night and the range that follows it are accepted, but the match then
does not find the hours before midnight. -/
theorem keepsWindow_adjacentNight_fails :
    quotaValidRanges (bytes "22:00-02:00,02:00-04:00") false = true ∧
      listedRanges (bytes "22:00-02:00,02:00-04:00") false =
        some [(79200, 7200), (7200, 14400)] ∧
      ¬ KeepsWindow (fun _ => 0) (bytes "22:00-02:00,02:00-04:00") false
        [(79200, 7200), (7200, 14400)] := by
  refine ⟨by decide, by decide, ?_⟩
  rintro ⟨array, harray, -, hmatches⟩
  have hparsed : parseTimeRanges (fun _ => 0)
      (bytes "22:00-02:00,02:00-04:00") false =
        some [7200, 14400, 79200, 7200] := by
    decide
  cases hparsed.symm.trans harray
  have hfound := (hmatches 82800 (by decide) (by decide)).2
    ⟨(79200, 7200), by simp, by decide⟩
  revert hfound
  decide

end Tomato64.Windows
