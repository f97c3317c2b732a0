import Tomato64.Quota.Timerange

/-!
# Cutting ranges that run past the end of the span

The `timerange` match joins the ranges of a sorted list where they touch, and
cuts a range that runs past the end of the span in two.  It cuts only one such
range, only the one that comes last in order, and only if it ends before every
other range begins.

This module says which sorted lists keep their meaning that way.
-/

namespace Tomato64.Windows

open Intervals QuotaRanges Timerange
open List hiding flatten lookup

/-- The range runs past the end of the span. -/
def Wraps (range : Range) : Prop :=
  range.2 < range.1

instance (range : Range) : Decidable (Wraps range) :=
  inferInstanceAs (Decidable (_ < _))

/-- The seconds of a range, both ends included. -/
def InRange (range : Range) (second : ℤ) : Prop :=
  if Wraps range then range.1 ≤ second ∨ second ≤ range.2
  else range.1 ≤ second ∧ second ≤ range.2

instance (range : Range) (second : ℤ) : Decidable (InRange range second) :=
  inferInstanceAs (Decidable (ite _ _ _))

variable (ranges : List Range)

def Listed (second : ℤ) : Prop :=
  ∃ range ∈ ranges, InRange range second

/-- The array finds exactly the listed seconds of the span. -/
def Matches (span : ℤ) (array : List ℤ) (ranges : List Range) : Prop :=
  ∀ second, 0 ≤ second → second < span →
    (scanRanges array second = true ↔ Listed ranges second)

/-- What a wrap adds at the front of the span lies in a range that does not
wrap, or before the end of `last`, which itself comes before every start. -/
def FrontFound (last : Range) : Prop :=
  ∀ wrap ∈ ranges, Wraps wrap → ∀ second, 0 ≤ second → second ≤ wrap.2 →
    (∃ range ∈ ranges, ¬ Wraps range ∧ range.1 ≤ second ∧
      second ≤ range.2) ∨
    (second ≤ last.2 ∧ ∀ range ∈ ranges, last.2 < range.1)

/-- Every range that wraps starts at the very end of the span, where no range
ends. -/
structure WrapsAtEnd (span : ℤ) (ranges : List Range) : Prop where
  start : ∀ range ∈ ranges, Wraps range → range.1 = span
  stop : ∀ range ∈ ranges, range.2 ≠ span

/-- One range wraps, and it ends before every range begins. -/
def WrapsOnce : Prop :=
  ∃ wrap, ranges.filter (fun range => Wraps range) = [wrap] ∧
    ∀ range ∈ ranges, wrap.2 < range.1

/-! ## The cut -/

/-- The cut in terms of whole ranges: the bounds of the last one become the
first range and the last one. -/
def cutRanges (span : ℤ) (joined : List Range) : List Range :=
  match joined.head?, joined.getLast? with
  | some first, some last =>
    if last.2 < first.1 then
      (0, last.2) :: (joined.dropLast ++ [(last.1, span)])
    else joined
  | _, _ => joined

variable {others : List Range}

theorem adjustRanges_flatten {span : ℤ} {first : Range}
    (hspan : ¬ (first.1 = 0 ∧ first.2 = span)) :
    adjustRanges span (flatten (first :: others)) =
      some (flatten (cutRanges span (first :: others))) := by
  obtain ⟨init, last, hinit⟩ : ∃ init last, first :: others = init ++ [last] :=
    ⟨_, _, (dropLast_append_getLast (cons_ne_nil _ _)).symm⟩
  have hhead : (flatten (first :: others)).head? = some first.1 := rfl
  have hsecond : (flatten (first :: others))[1]? = some first.2 := rfl
  have hlast : (flatten (first :: others)).getLast? = some last.2 := by
    rw [hinit, Intervals.flatten_append]
    simp
  have hdrop : (flatten (first :: others)).dropLast =
      flatten init ++ [last.1] := by
    rw [hinit, Intervals.flatten_append, Intervals.flatten_cons,
      Intervals.flatten_nil, dropLast_append_cons]
    rfl
  have hodd : (0 :: last.2 :: (flatten init ++ [last.1])).length % 2 = 1 := by
    simp only [length_cons, length_append, length_nil, Intervals.length_flatten]
    omega
  have hfirst : (first :: others).head? = some first := rfl
  have hfinal : (first :: others).getLast? = some last := by simp [hinit]
  have hinitial : (first :: others).dropLast = init := by simp [hinit]
  simp only [adjustRanges, hhead, hlast, hsecond, Option.some.injEq, hspan,
    if_false, cutRanges, hfirst, hfinal, hinitial]
  split
  · rw [hdrop, if_pos hodd, Intervals.flatten_cons, Intervals.flatten_append]
    simp
  · apply if_neg
    rw [Intervals.length_flatten]
    omega

theorem length_cutRanges (span : ℤ) (joined : List Range) :
    (cutRanges span joined).length ≤ joined.length + 1 := by
  rw [cutRanges]
  split
  · next first last hfirst _ =>
    split
    · cases joined with
      | nil => cases hfirst
      | cons first others => simp
    · omega
  · omega

/-- Unless the wrap at hand is the last range and ends before the first one,
the cut leaves it as it is. -/
theorem cutRanges_append {span : ℤ} {joined : List Range} {wrap : Range}
    {first last : Range}
    (hfirst : (joined ++ wrap :: others).head? = some first)
    (hlast : (wrap :: others).getLast? = some last)
    (huncut : others ≠ [] ∨ ¬ wrap.2 < first.1)
    (hothers : ∀ range ∈ others, range.1 = span) :
    ∃ behind, (∀ range ∈ behind, range.1 = span) ∧
      cutRanges span (joined ++ wrap :: others) =
        (if last.2 < first.1 then [(0, last.2)] else []) ++
          (joined ++ wrap :: behind) := by
  have hfinal : (joined ++ wrap :: others).getLast? = some last := by
    rw [getLast?_append_of_ne_nil _ (cons_ne_nil _ _), hlast]
  simp only [cutRanges, hfirst, hfinal]
  by_cases hless : last.2 < first.1
  swap
  · rw [if_neg hless, if_neg hless]
    exact ⟨others, hothers, rfl⟩
  rw [if_pos hless, if_pos hless]
  have hne : others ≠ [] := by
    rintro rfl
    cases hlast
    rcases huncut with hne | hnot
    · exact hne rfl
    · exact hnot hless
  have hstart : last.1 = span := by
    apply hothers
    rw [getLast?_cons_of_ne_nil hne] at hlast
    exact mem_of_getLast? hlast
  refine ⟨others.dropLast ++ [(last.1, span)], ?_, ?_⟩
  · intro range hrange
    rcases mem_append.1 hrange with hrange | hrange
    · exact hothers range (mem_of_mem_dropLast hrange)
    · rw [mem_singleton.1 hrange, hstart]
  · rw [dropLast_append_of_ne_nil (cons_ne_nil _ _),
      dropLast_cons_of_ne_nil hne]
    simp

/-! ## Sorted lists -/

structure Sorted (span : ℤ) (ranges : List Range) : Prop where
  accepted : Accepted span ranges
  starts : ranges.Pairwise fun left right => left.1 ≤ right.1

section Lists

variable {span : ℤ} {ranges : List Range}

/-- Two ranges in order: the first one ends before the second, unless both
wrap and the second one starts at the very end. -/
theorem Sorted.pairs (hsorted : Sorted span ranges) :
    ranges.Pairwise fun left right =>
      (¬ Wraps left → left.2 ≤ right.1) ∧
        (Wraps left → Wraps right ∧ right.1 = span) := by
  have hboth := hsorted.starts.and hsorted.accepted.disjoint
  refine hboth.imp_of_mem ?_
  rintro left right hleft hright ⟨hstart, hdisjoint⟩
  have hleftBounds := hsorted.accepted.bounds left hleft
  have hrightBounds := hsorted.accepted.bounds right hright
  have hrightProper := hsorted.accepted.proper right hright
  rw [overlap_eq_false, unwrapEnd, unwrapEnd] at hdisjoint
  simp only [Wraps]
  split at hdisjoint <;> split at hdisjoint <;> omega

/-- A sorted list without wraps, or its ranges before the first wrap, that wrap
and the ones behind it. -/
theorem Sorted.cases (hsorted : Sorted span ranges) :
    (∀ range ∈ ranges, ¬ Wraps range) ∨
      ∃ front wrap others, ranges = front ++ wrap :: others ∧
        (∀ range ∈ front, ¬ Wraps range) ∧ Wraps wrap ∧
        ∀ range ∈ others, Wraps range ∧ range.1 = span := by
  by_cases hwraps : ∃ range ∈ ranges, Wraps range
  · obtain ⟨front, wrap, others, rfl, hwrap, hfront⟩ :=
      Split.exists_first hwraps
    refine .inr ⟨front, wrap, others, rfl, hfront, hwrap, ?_⟩
    have hbehind := (pairwise_cons.1 (pairwise_append.1 hsorted.pairs).2.1).1
    exact fun range hrange => (hbehind range hrange).2 hwrap
  · left
    intro range hrange hwrap
    exact hwraps ⟨range, hrange, hwrap⟩

theorem Sorted.start_le (hsorted : Sorted span ranges) {first : Range}
    (hranges : ranges = first :: others) :
    ∀ range ∈ ranges, first.1 ≤ range.1 := by
  have hstarts := hsorted.starts
  rw [hranges, pairwise_cons] at hstarts
  rw [hranges, forall_mem_cons]
  exact ⟨le_rfl, hstarts.1⟩

variable {front : List Range}

/-- The ranges before a start are in order with whatever begins there. -/
theorem ordered_append {lower upper : ℤ}
    (hfront : ∀ range ∈ front, range.1 < range.2 ∧ range.2 ≤ lower)
    (hpairs : front.Pairwise fun left right => left.2 ≤ right.1)
    (hforward : lower ≤ upper) : Ordered (front ++ [(lower, upper)]) := by
  constructor
  · intro range hrange
    rcases mem_append.1 hrange with hrange | hrange
    · exact (hfront range hrange).1.le
    · rw [mem_singleton.1 hrange]
      exact hforward
  · rw [pairwise_append]
    refine ⟨hpairs, pairwise_singleton _ _, fun left hleft right hright => ?_⟩
    rw [mem_singleton.1 hright]
    exact (hfront left hleft).2

structure Parts (span : ℤ) (front : List Range) (wrap : Range)
    (others : List Range) : Prop where
  before : ∀ range ∈ front, range.1 < range.2 ∧ range.2 ≤ wrap.1
  pairs : front.Pairwise fun left right => left.2 ≤ right.1
  wraps : Wraps wrap
  bounds : wrap.1 ≤ span ∧ 0 ≤ wrap.2
  behind : ∀ range ∈ others, Wraps range ∧ range.1 = span

theorem Sorted.parts {wrap : Range}
    (hsorted : Sorted span (front ++ wrap :: others))
    (hfront : ∀ range ∈ front, ¬ Wraps range) (hwrap : Wraps wrap)
    (hothers : ∀ range ∈ others, Wraps range ∧ range.1 = span) :
    Parts span front wrap others := by
  have hpairs := pairwise_append.1 hsorted.pairs
  have hbounds := hsorted.accepted.bounds wrap (by simp)
  refine ⟨fun range hrange => ⟨?_, ?_⟩, ?_, hwrap,
    ⟨hbounds.2.1, hbounds.2.2.1⟩, hothers⟩
  · exact lt_of_le_of_ne (not_lt.1 (hfront range hrange))
      (hsorted.accepted.proper range (by simp [hrange]))
  · exact (hpairs.2.2 range hrange wrap mem_cons_self).1 (hfront range hrange)
  · exact hpairs.1.imp_of_mem fun hleft _ hpair => hpair.1 (hfront _ hleft)

/-- Wraps at the very end do not touch each other. -/
theorem join_wraps {wrap : Range} (hwrap : wrap.2 ≠ span)
    (hothers : ∀ range ∈ others, Wraps range ∧ range.1 = span) :
    join (wrap :: others) = wrap :: others := by
  induction others generalizing wrap with
  | nil => rfl
  | cons next others ih =>
    rw [forall_mem_cons] at hothers
    have hnext : next.2 ≠ span := hothers.1.2 ▸ (ne_of_lt hothers.1.1)
    rw [join_cons, ih hnext hothers.2]
    simp [hothers.1.2, hwrap]

section Parts

variable {front others : List Range} {wrap : Range}

/-- The joined list up to the first wrap, with any bound in its place. -/
theorem Parts.exists_join (hparts : Parts span front wrap others) :
    ∃ joined start,
      join (front ++ wrap :: others) =
        joined ++ (start, wrap.2) :: others ∧
      (∀ upper, join (front ++ [(wrap.1, upper)]) =
        joined ++ [(start, upper)]) ∧
      (∀ range ∈ joined, range.2 < start) ∧ start ≤ wrap.1 := by
  obtain ⟨joined, start, hjoin⟩ := exists_join_append front wrap.1
  have hend : wrap.2 ≠ span := by
    have hwraps : wrap.2 < wrap.1 := hparts.wraps
    have hbounds := hparts.bounds
    omega
  have hsingle : ∀ upper, join (front ++ [(wrap.1, upper)]) =
      joined ++ [(start, upper)] := fun upper => hjoin upper [] rfl
  have hordered := ordered_append hparts.before hparts.pairs (le_refl wrap.1)
  obtain ⟨hforward, -, hapart⟩ := join_spec hordered
  rw [hsingle] at hforward hapart
  refine ⟨joined, start, hjoin wrap.2 others (join_wraps hend hparts.behind),
    hsingle, fun range hrange => ?_, ?_⟩
  · exact (pairwise_append.1 hapart).2.2 range hrange (start, wrap.1)
      (by simp)
  · exact hforward.forward (start, wrap.1) (by simp)

/-- The start of a wrap that was not cut is not found. -/
theorem Parts.not_lookup_start (hparts : Parts span front wrap others)
    (hstart : wrap.1 < span) {before behind : List Range}
    (hbefore : ∀ range ∈ before, range.2 < wrap.1)
    (hbehind : ∀ range ∈ behind, range.1 = span)
    {joined : List Range} {start : ℤ}
    (hjoined : ∀ range ∈ joined, range.2 < start) (hle : start ≤ wrap.1) :
    lookup (flatten (before ++ (joined ++ (start, wrap.2) :: behind)))
      wrap.1 = false := by
  have hassoc : before ++ (joined ++ (start, wrap.2) :: behind) =
      (before ++ joined ++ [(start, wrap.2)]) ++ behind := by
    simp
  rw [hassoc, lookup_append_of_lt fun range hrange => by
    rw [hbehind range hrange]
    exact hstart]
  apply not_lookup_of_forall_lt
  simp only [forall_mem_append, forall_mem_singleton]
  exact ⟨⟨hbefore, fun range hrange => (hjoined range hrange).trans_le hle⟩,
    hparts.wraps⟩

end Parts

/-! ## Never the whole span -/

variable {intervals : List Range}

theorem length_le_sum (hforward : ∀ interval ∈
    intervals, interval.1 ≤ interval.2) {interval : Range}
    (hinterval : interval ∈ intervals) :
    interval.2 - interval.1 ≤
      (intervals.map fun other => other.2 - other.1).sum := by
  refine single_le_sum ?_ _ (mem_map_of_mem hinterval)
  intro length hlength
  obtain ⟨other, hother, rfl⟩ := mem_map.1 hlength
  have hle := hforward other hother
  omega

theorem covered_nonneg {ranges : List Range}
    (hbounds : ∀ range ∈ ranges, range.1 ≤ span ∧ 0 ≤ range.2) :
    0 ≤ covered span ranges := by
  apply sum_nonneg
  intro length hlength
  obtain ⟨range, hrange, rfl⟩ := mem_map.1 hlength
  have hrange := hbounds range hrange
  rw [unwrapEnd]
  split <;> omega

theorem covered_append (left right : List Range) :
    covered span (left ++ right) = covered span left + covered span right := by
  simp [covered]

theorem covered_eq_sum (span : ℤ) {ranges : List Range}
    (hranges : ∀ range ∈ ranges, ¬ Wraps range) :
    covered span ranges = (ranges.map fun range => range.2 - range.1).sum := by
  rw [covered]
  congr 1
  apply map_congr_left
  intro range hrange
  have hnot : ¬ range.2 < range.1 := hranges range hrange
  rw [unwrapEnd, if_neg hnot]

theorem Sorted.ordered (hsorted : Sorted span ranges)
    (hranges : ∀ range ∈ ranges, ¬ Wraps range) : Ordered ranges := by
  refine ⟨fun range hrange => not_lt.1 (hranges range hrange), ?_⟩
  exact hsorted.pairs.imp_of_mem fun hleft _ hpair => hpair.1 (hranges _ hleft)

/-- The list covers less than the span, so no joined range is all of it. -/
theorem Sorted.not_whole (hsorted : Sorted span ranges) :
    ∀ range ∈ join ranges, ¬ (range.1 = 0 ∧ range.2 = span) := by
  rintro range hrange ⟨hlower, hupper⟩
  have hcovered := hsorted.accepted.covered_lt
  rcases hsorted.cases with hranges |
    ⟨front, wrap, others, rfl, hfront, hwrap, hothers⟩
  · have hforward := (join_spec (hsorted.ordered hranges)).1.forward
    have hlength := length_le_sum hforward hrange
    rw [sum_join, ← covered_eq_sum span hranges] at hlength
    omega
  have hparts := hsorted.parts hfront hwrap hothers
  obtain ⟨joined, start, hjoin, hsingle, -, -⟩ := hparts.exists_join
  have hbounds := hsorted.accepted.bounds
  rw [hjoin] at hrange
  rcases mem_append.1 hrange with hrange | hrange
  · have hordered := ordered_append hparts.before hparts.pairs
      (le_refl wrap.1)
    have hforward := (join_spec hordered).1.forward
    have hmem : range ∈ join (front ++ [(wrap.1, wrap.1)]) := by
      rw [hsingle]
      simp [hrange]
    have hlength := length_le_sum hforward hmem
    have hrest : 0 ≤ covered span (wrap :: others) := by
      apply covered_nonneg
      intro other hother
      have hmem := hbounds other (mem_append_right _ hother)
      exact ⟨hmem.2.1, hmem.2.2.1⟩
    rw [sum_join, map_append, sum_append,
      ← covered_eq_sum span hfront] at hlength
    rw [covered_append] at hcovered
    simp only [map_cons, map_nil, sum_singleton] at hlength
    omega
  · have hend : ∀ other ∈ wrap :: others, other.2 ≠ span := by
      intro other hother
      have hmem := hbounds other (mem_append_right _ hother)
      have hless : other.2 < other.1 := by
        rcases mem_cons.1 hother with rfl | hother
        · exact hwrap
        · exact (hothers other hother).1
      omega
    rcases mem_cons.1 hrange with rfl | hrange
    · exact hend wrap mem_cons_self hupper
    · exact hend range (mem_cons_of_mem _ hrange) hupper

/-! ## What the array of a sorted list finds -/

theorem listed_iff_covers (hranges : ∀ range ∈ ranges, ¬ Wraps range)
    (second : ℤ) : Listed ranges second ↔ Covers ranges second := by
  constructor
  · rintro ⟨range, hrange, hin⟩
    rw [InRange, if_neg (hranges range hrange)] at hin
    exact ⟨range, hrange, hin⟩
  · rintro ⟨range, hrange, hin⟩
    refine ⟨range, hrange, ?_⟩
    rw [InRange, if_neg (hranges range hrange)]
    exact hin

variable {second : ℤ}

theorem listed_append {left right : List Range} :
    Listed (left ++ right) second ↔
      Listed left second ∨ Listed right second := by
  simp [Listed, or_and_right, exists_or]

theorem listed_singleton {range : Range} :
    Listed [range] second ↔ InRange range second := by
  simp [Listed]

/-- Every range lists its start, so an array that misses it is wrong. -/
theorem not_matches_of_lost {array : List ℤ} {range : Range}
    (hrange : range ∈ ranges) (hlow : 0 ≤ range.1) (hhigh : range.1 < span)
    (hlost : scanRanges array range.1 = false) :
    ¬ Matches span array ranges := by
  intro hmatches
  have hin : InRange range range.1 := by
    rw [InRange]
    split
    · exact .inl le_rfl
    · next hnot => exact ⟨le_rfl, not_lt.1 hnot⟩
  rw [(hmatches _ hlow hhigh).2 ⟨range, hrange, hin⟩] at hlost
  cases hlost

def arrayOf (span : ℤ) (ranges : List Range) : List ℤ :=
  flatten (cutRanges span (join ranges))

theorem Ordered.le_last (hordered : Ordered intervals)
    {first last : Range} (hfirst : intervals.head? = some first)
    (hlast : intervals.getLast? = some last) : first.1 ≤ last.2 := by
  obtain ⟨others, rfl⟩ := head?_eq_some_iff.1 hfirst
  obtain ⟨hforward, hbehind, hrest⟩ := ordered_cons.1 hordered
  rcases mem_cons.1 (mem_of_getLast? hlast) with rfl | hmem
  · exact hforward
  · exact hforward.trans ((hbehind last hmem).trans (hrest.forward last hmem))

theorem matches_of_not_wraps (hsorted : Sorted span ranges)
    (hranges : ∀ range ∈ ranges, ¬ Wraps range) :
    Matches span (arrayOf span ranges) ranges := by
  intro second _ _
  have hordered := hsorted.ordered hranges
  obtain ⟨hjoined, hcovers, -⟩ := join_spec hordered
  have hcut : cutRanges span (join ranges) = join ranges := by
    rw [cutRanges]
    split
    · next first last hfirst hlast =>
      exact if_neg (not_lt.2 (Ordered.le_last hjoined hfirst hlast))
    · rfl
  rw [scanRanges, arrayOf, hcut, lookup_flatten_iff hjoined, hcovers,
    listed_iff_covers hranges]

section Parts

variable {front others : List Range} {wrap first : Range}

/-- The joined list begins with the least start. -/
theorem head?_join (hfirst : ranges.head? = some first) :
    ∃ joined, (join ranges).head? = some joined ∧ joined.1 = first.1 := by
  obtain ⟨others, rfl⟩ := head?_eq_some_iff.1 hfirst
  obtain ⟨upper, rest, hcons⟩ := exists_join_cons first others
  exact ⟨(first.1, upper), by rw [hcons]; rfl, rfl⟩

theorem Ordered.start_le_join
    (hordered : Ordered intervals) (hfirst : intervals.head? = some first) :
    ∀ other ∈ join intervals, first.1 ≤ other.1 := by
  obtain ⟨others, rfl⟩ := head?_eq_some_iff.1 hfirst
  obtain ⟨upper, rest, hcons⟩ := exists_join_cons first others
  obtain ⟨hjoined, -, -⟩ := join_spec hordered
  rw [hcons] at hjoined ⊢
  obtain ⟨hforward, hbehind, -⟩ := ordered_cons.1 hjoined
  rw [forall_mem_cons]
  exact ⟨le_rfl, fun other hother => hforward.trans (hbehind other hother)⟩

/-- The first start stays when what stands behind the front is replaced. -/
theorem head?_append {rest rest' : List Range} {other : Range}
    (hfirst : (front ++ wrap :: rest).head? = some first)
    (hsame : other.1 = wrap.1) :
    ∃ head, (front ++ other :: rest').head? = some head ∧ head.1 = first.1 := by
  cases front with
  | nil =>
    cases hfirst
    exact ⟨_, rfl, hsame⟩
  | cons one rest =>
    cases hfirst
    exact ⟨_, rfl, rfl⟩

/-- A wrap that is the last range and ends before the first one is cut where
the span ends. -/
theorem Parts.matches_of_cut (hparts : Parts span front wrap [])
    (hfirst : (front ++ [wrap]).head? = some first)
    (hbefore : wrap.2 < first.1) :
    Matches span (arrayOf span (front ++ [wrap])) (front ++ [wrap]) := by
  intro second hlow hhigh
  obtain ⟨joined, start, hjoin, hsingle, -, -⟩ := hparts.exists_join
  obtain ⟨head, hhead, hstart⟩ := head?_join hfirst
  have hordered := ordered_append hparts.before hparts.pairs hparts.bounds.1
  obtain ⟨hjoined, hcovers, -⟩ := join_spec hordered
  have hcut : cutRanges span (join (front ++ [wrap])) =
      (0, wrap.2) :: join (front ++ [(wrap.1, span)]) := by
    rw [hjoin] at hhead
    rw [hjoin, hsingle, cutRanges, hhead]
    simp [hstart, hbefore]
  have hwhole : Ordered ((0, wrap.2) :: join (front ++ [(wrap.1, span)])) := by
    refine ordered_cons.2 ⟨hparts.bounds.2, fun other hother => ?_, hjoined⟩
    obtain ⟨least, hleast, hsame⟩ :=
      @head?_append front wrap first [] [] (wrap.1, span) hfirst rfl
    have hle := Ordered.start_le_join hordered hleast other hother
    omega
  rw [scanRanges, arrayOf, hcut, lookup_flatten_iff hwhole, covers_cons,
    hcovers, covers_append, listed_append, listed_singleton,
    listed_iff_covers fun range hrange =>
      (hparts.before range hrange).1.not_gt, InRange, if_pos hparts.wraps]
  simp only [Covers, mem_singleton, exists_eq_left]
  constructor
  · rintro (⟨-, hle⟩ | hfront | ⟨hle, -⟩)
    · exact .inr (.inr hle)
    · exact .inl hfront
    · exact .inr (.inl hle)
  · rintro (hfront | hle | hle)
    · exact .inr (.inl hfront)
    · exact .inr (.inr ⟨hle, hhigh.le⟩)
    · exact .inl ⟨hlow, hle⟩

variable (hparts : Parts span front wrap others)
  (hfirst : (front ++ wrap :: others).head? = some first)
  (huncut : others ≠ [] ∨ ¬ wrap.2 < first.1)
include hparts hfirst huncut

/-- A wrap that begins within the span and is not cut is lost. -/
theorem Parts.not_found_start (hearly : wrap.1 < span)
    (hstart : first.1 ≤ wrap.1) :
    scanRanges (arrayOf span (front ++ wrap :: others)) wrap.1 = false := by
  obtain ⟨joined, start, hjoin, -, hjoined, hle⟩ := hparts.exists_join
  obtain ⟨head, hhead, hsame⟩ := head?_join hfirst
  obtain ⟨last, hlast⟩ : ∃ last,
      ((start, wrap.2) :: others).getLast? = some last :=
    ⟨_, getLast?_eq_some_getLast (cons_ne_nil _ _)⟩
  rw [hjoin] at hhead
  obtain ⟨behind, hbehind, hcut⟩ := cutRanges_append hhead hlast
    (by rwa [hsame]) (fun range hrange => (hparts.behind range hrange).2)
  rw [scanRanges, arrayOf, hjoin, hcut]
  apply hparts.not_lookup_start hearly _ hbehind hjoined hle
  intro range hrange
  split at hrange
  · next hless =>
    rw [mem_singleton.1 hrange]
    exact hless.trans_le (hsame.trans_le hstart)
  · cases hrange

/-- A range that ends where the wrap begins is part of it, and lost with it. -/
theorem Parts.not_found_touching
    (hlate : wrap.1 = span) {range : Range} (hrange : range ∈ front)
    (hstop : range.2 = span) (hshort : wrap.2 < range.1)
    (hstart : first.1 ≤ range.1) :
    scanRanges (arrayOf span (front ++ wrap :: others)) range.1 = false := by
  obtain ⟨before, behind, rfl⟩ := append_of_mem hrange
  obtain ⟨hpairs, hbehind, hacross⟩ := pairwise_append.1 hparts.pairs
  obtain ⟨hproper, -⟩ := hparts.before range hrange
  obtain rfl : behind = [] := by
    rw [eq_nil_iff_forall_not_mem]
    intro other hother
    have hafter := (pairwise_cons.1 hbehind).1 other hother
    have hother := hparts.before other (by simp [hother])
    omega
  have hjoin : join (before ++ [range] ++ wrap :: others) =
      join (before ++ (range.1, wrap.2) :: others) := by
    have hboth : before ++ [range] ++ wrap :: others =
        before ++ (range.1, span) :: (span, wrap.2) :: others := by
      obtain ⟨start, stop⟩ := range
      obtain ⟨start', stop'⟩ := wrap
      simp only at hstop hlate
      simp [hstop, hlate]
    rw [hboth, join_append_touching]
  have hparts' : Parts span before (range.1, wrap.2) others := by
    refine ⟨fun other hother => ⟨(hparts.before other (by simp [hother])).1,
      hacross other hother range (by simp)⟩, hpairs, hshort,
      ⟨by simp only; omega, hparts.bounds.2⟩, hparts.behind⟩
  rw [append_assoc] at hfirst
  obtain ⟨head, hhead, hsame⟩ :=
    @head?_append _ _ _ _ others (range.1, wrap.2) hfirst rfl
  have hlost := hparts'.not_found_start hhead (by rwa [hsame])
    (by simp only; omega) (hsame.trans_le hstart)
  rwa [arrayOf, ← hjoin] at hlost

/-- Behind the last start within the span only the cut is found, and what does
not wrap. -/
theorem Parts.found_iff
    (hlate : wrap.1 = span) (hstop : ∀ range ∈ front, range.2 ≠ span)
    {last : Range} (hlast : (wrap :: others).getLast? = some last)
    (hlastLow : 0 ≤ last.2) (hlow : 0 ≤ second) (hhigh : second < span) :
    scanRanges (arrayOf span (front ++ wrap :: others)) second = true ↔
      Covers front second ∨ (second ≤ last.2 ∧ last.2 < first.1) := by
  have hend : wrap.2 ≠ span := hlate ▸ (ne_of_lt hparts.wraps)
  have hjoin : join (front ++ wrap :: others) =
      join front ++ wrap :: others := by
    rw [join_append_of_ne (by simpa [hlate] using hstop),
      join_wraps hend hparts.behind]
  obtain ⟨head, hhead, hsame⟩ := head?_join hfirst
  have hfront : Ordered front :=
    ⟨fun range hrange => (hparts.before range hrange).1.le, hparts.pairs⟩
  obtain ⟨hjoined, hcovers, -⟩ := join_spec hfront
  rw [hjoin] at hhead
  obtain ⟨behind, hbehind, hcut⟩ := cutRanges_append hhead hlast
    (by rwa [hsame]) (fun range hrange => (hparts.behind range hrange).2)
  rw [hsame] at hcut
  have hright : ∀ range ∈ wrap :: behind, second < range.1 := by
    intro range hrange
    rcases mem_cons.1 hrange with rfl | hrange
    · rwa [hlate]
    · rwa [hbehind range hrange]
  rw [scanRanges, arrayOf, hjoin, hcut, ← append_assoc,
    lookup_append_of_lt hright]
  split
  · next hless =>
    have hstart : ∀ range ∈ join front, last.2 ≤ range.1 := by
      intro range hrange
      cases front with
      | nil => cases hrange
      | cons one rest =>
        cases hfirst
        exact hless.le.trans
          (Ordered.start_le_join hfront rfl range hrange)
    have hwhole : Ordered ((0, last.2) :: join front) :=
      ordered_cons.2 ⟨hlastLow, hstart, hjoined⟩
    rw [singleton_append, lookup_flatten_iff hwhole, covers_cons, hcovers]
    simp only [hlow, true_and, hless, and_true]
    exact or_comm
  · next hnot =>
    rw [nil_append, lookup_flatten_iff hjoined, hcovers]
    simp [hnot]

omit hparts hfirst huncut in
theorem listed_wraps {wraps : List Range}
    (hwraps : ∀ range ∈ wraps, Wraps range ∧ range.1 = span)
    (hhigh : second < span) :
    Listed wraps second ↔ ∃ range ∈ wraps, second ≤ range.2 := by
  constructor
  · rintro ⟨range, hrange, hin⟩
    obtain ⟨hwrap, hstart⟩ := hwraps range hrange
    rw [InRange, if_pos hwrap] at hin
    exact ⟨range, hrange, hin.resolve_left (by omega)⟩
  · rintro ⟨range, hrange, hle⟩
    refine ⟨range, hrange, ?_⟩
    rw [InRange, if_pos (hwraps range hrange).1]
    exact .inr hle

/-- Once nothing else can go wrong, a window is kept exactly when the seconds
that the wraps add at the front are found. -/
theorem Parts.matches_iff
    (hlate : wrap.1 = span) (hstop : ∀ range ∈ front, range.2 ≠ span)
    (hstarts : ∀ range ∈ front ++ wrap :: others, first.1 ≤ range.1)
    {last : Range} (hlast : (wrap :: others).getLast? = some last)
    (hlastLow : 0 ≤ last.2) :
    Matches span (arrayOf span (front ++ wrap :: others))
        (front ++ wrap :: others) ↔
      FrontFound (front ++ wrap :: others) last := by
  have hwraps : ∀ range ∈ wrap :: others, Wraps range ∧ range.1 = span := by
    rw [forall_mem_cons]
    exact ⟨⟨hparts.wraps, hlate⟩, hparts.behind⟩
  have hnot : ∀ range ∈ front, ¬ Wraps range :=
    fun range hrange => (hparts.before range hrange).1.not_gt
  have hbefore : last.2 < first.1 ↔
      ∀ range ∈ front ++ wrap :: others, last.2 < range.1 := by
    constructor
    · exact fun hless range hrange => hless.trans_le (hstarts range hrange)
    · exact fun hall => hall first (mem_of_head? hfirst)
  have hcovers : ∀ second, Covers front second ↔
      ∃ range ∈ front ++ wrap :: others, ¬ Wraps range ∧ range.1 ≤ second ∧
        second ≤ range.2 := by
    intro second
    constructor
    · rintro ⟨range, hrange, hin⟩
      exact ⟨range, mem_append_left _ hrange, hnot range hrange, hin⟩
    · rintro ⟨range, hrange, hproper, hin⟩
      rcases mem_append.1 hrange with hrange | hrange
      · exact ⟨range, hrange, hin⟩
      · exact absurd (hwraps range hrange).1 hproper
  have hsecond : ∀ second, 0 ≤ second → second < span →
      ((scanRanges (arrayOf span (front ++ wrap :: others)) second = true ↔
        Listed (front ++ wrap :: others) second) ↔
      ((∃ range ∈ wrap :: others, second ≤ range.2) → Covers front second ∨
        (second ≤ last.2 ∧ last.2 < first.1))) := by
    intro second hlow hhigh
    rw [hparts.found_iff hfirst huncut hlate hstop hlast hlastLow hlow hhigh,
      listed_append, listed_iff_covers hnot, listed_wraps hwraps hhigh]
    constructor
    · exact fun hiff hwrap => hiff.2 (.inr hwrap)
    intro hfound
    constructor
    · rintro (hcovered | ⟨hle, -⟩)
      · exact .inl hcovered
      · exact .inr ⟨last, mem_of_getLast? hlast, hle⟩
    · rintro (hcovered | hwrap)
      · exact .inl hcovered
      · exact hfound hwrap
  constructor
  · intro hmatches other hother hwrap second hlow hle
    rcases mem_append.1 hother with hfront | hmem
    · exact absurd hwrap (hnot other hfront)
    have hhigh : second < span := by
      obtain ⟨hless, hstart⟩ := hwraps other hmem
      exact hle.trans_lt (hstart ▸ hless)
    have hfound := (hsecond second hlow hhigh).1 (hmatches second hlow hhigh)
      ⟨other, hmem, hle⟩
    rwa [hcovers, hbefore] at hfound
  · intro hfront second hlow hhigh
    rw [hsecond second hlow hhigh]
    rintro ⟨other, hmem, hle⟩
    rw [hcovers, hbefore]
    exact hfront other (mem_append_right _ hmem) (hwraps other hmem).1
      second hlow hle

end Parts

/-- A range up to the end of the span and a wrap from there on would cover the
span if they met. -/
theorem Sorted.end_lt_start {wrap range : Range}
    (hsorted : Sorted span (front ++ wrap :: others))
    (hparts : Parts span front wrap others) (hlate : wrap.1 = span)
    (hrange : range ∈ front) (hstop : range.2 = span) : wrap.2 < range.1 := by
  have hcovered := hsorted.accepted.covered_lt
  have hlength := length_le_sum
    (fun other hother => (hparts.before other hother).1.le) hrange
  have hrest : 0 ≤ covered span others := by
    apply covered_nonneg
    intro other hother
    have hbounds := hsorted.accepted.bounds other (by simp [hother])
    exact ⟨hbounds.2.1, hbounds.2.2.1⟩
  have hwrapLength : covered span (wrap :: others) =
      wrap.2 + covered span others := by
    have hless : wrap.2 < wrap.1 := hparts.wraps
    simp only [covered, map_cons, sum_cons, unwrapEnd, if_pos hless]
    omega
  rw [covered_append, covered_eq_sum span fun other hother =>
    (hparts.before other hother).1.not_gt, hwrapLength] at hcovered
  omega

/-- The sorted lists whose windows are kept. -/
theorem Sorted.matches_iff (hsorted : Sorted span ranges) :
    Matches span (arrayOf span ranges) ranges ↔
      (∀ range ∈ ranges, ¬ Wraps range) ∨ WrapsOnce ranges ∨
        (WrapsAtEnd span ranges ∧
          ∃ last, ranges.getLast? = some last ∧ FrontFound ranges last) := by
  rcases hsorted.cases with hranges |
    ⟨front, wrap, others, rfl, hfront, hwrap, hothers⟩
  · exact iff_of_true (matches_of_not_wraps hsorted hranges) (.inl hranges)
  have hparts := hsorted.parts hfront hwrap hothers
  have hbounds := hsorted.accepted.bounds
  obtain ⟨first, tail, hcons⟩ := exists_cons_of_ne_nil hsorted.accepted.nonempty
  have hstarts := hsorted.start_le hcons
  have hfirst : (front ++ wrap :: others).head? = some first := by
    rw [hcons]
    rfl
  have hfilter : (front ++ wrap :: others).filter (fun range => Wraps range) =
      wrap :: others := by
    rw [filter_append, filter_eq_nil_iff.2 (by simpa using hfront),
      filter_eq_self.2, nil_append]
    simp only [forall_mem_cons, decide_eq_true_eq]
    exact ⟨hwrap, fun range hrange => (hothers range hrange).1⟩
  by_cases hcut : others = [] ∧ wrap.2 < first.1
  · obtain ⟨rfl, hless⟩ := hcut
    refine iff_of_true (hparts.matches_of_cut hfirst hless)
      (.inr (.inl ⟨wrap, hfilter, fun range hrange => ?_⟩))
    exact hless.trans_le (hstarts range hrange)
  have huncut : others ≠ [] ∨ ¬ wrap.2 < first.1 := not_and_or.1 hcut
  have hmem : wrap ∈ front ++ wrap :: others := by simp
  have hnotAll : ¬ ∀ range ∈ front ++ wrap :: others, ¬ Wraps range :=
    fun hall => hall wrap hmem hwrap
  have hnotOnce : ¬ WrapsOnce (front ++ wrap :: others) := by
    rintro ⟨single, hsingle, hbefore⟩
    rw [hfilter, List.cons.injEq] at hsingle
    obtain ⟨rfl, rfl⟩ := hsingle
    exact hcut ⟨rfl, hbefore first (mem_of_head? hfirst)⟩
  rw [or_iff_right hnotAll, or_iff_right hnotOnce]
  have hlow := (hbounds wrap hmem).1
  by_cases hearly : wrap.1 < span
  · exact iff_of_false (not_matches_of_lost hmem hlow hearly
      (hparts.not_found_start hfirst huncut hearly (hstarts wrap hmem)))
      fun hends => hearly.ne (hends.1.start wrap hmem hwrap)
  have hlate : wrap.1 = span := le_antisymm hparts.bounds.1 (not_lt.1 hearly)
  by_cases htouch : ∃ range ∈ front, range.2 = span
  · obtain ⟨range, hrange, hstop⟩ := htouch
    have hrangeMem : range ∈ front ++ wrap :: others := by simp [hrange]
    have hproper := (hparts.before range hrange).1
    exact iff_of_false (not_matches_of_lost hrangeMem
      (hbounds range hrangeMem).1 (by omega)
      (hparts.not_found_touching hfirst huncut hlate hrange hstop
        (hsorted.end_lt_start hparts hlate hrange hstop)
        (hstarts range hrangeMem)))
      fun hends => hends.1.stop range hrangeMem hstop
  have hstop : ∀ range ∈ front, range.2 ≠ span :=
    fun range hrange hsame => htouch ⟨range, hrange, hsame⟩
  obtain ⟨last, hlast⟩ : ∃ last, (wrap :: others).getLast? = some last :=
    ⟨_, getLast?_eq_some_getLast (cons_ne_nil _ _)⟩
  have hlastAll : (front ++ wrap :: others).getLast? = some last := by
    rw [getLast?_append_of_ne_nil _ (cons_ne_nil _ _), hlast]
  have hlastLow := (hbounds last (mem_append_right _
    (mem_of_getLast? hlast))).2.2.1
  have hends : WrapsAtEnd span (front ++ wrap :: others) := by
    have hwraps : ∀ range ∈ wrap :: others, Wraps range ∧ range.1 = span := by
      rw [forall_mem_cons]
      exact ⟨⟨hwrap, hlate⟩, hothers⟩
    constructor
    · intro range hrange hrangeWraps
      rcases mem_append.1 hrange with hrange | hrange
      · exact absurd hrangeWraps (hfront range hrange)
      · exact (hwraps range hrange).2
    · intro range hrange
      rcases mem_append.1 hrange with hrange | hrange
      · exact hstop range hrange
      · obtain ⟨hless, hstart⟩ := hwraps range hrange
        exact hstart ▸ ne_of_lt hless
  rw [hparts.matches_iff hfirst huncut hlate hstop hstarts hlast hlastLow]
  constructor
  · exact fun hfound => ⟨hends, last, hlastAll, hfound⟩
  · rintro ⟨-, other, hother, hfound⟩
    rw [hlastAll, Option.some.injEq] at hother
    exact hother ▸ hfound

end Lists

end Tomato64.Windows
