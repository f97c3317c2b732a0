import Mathlib.Data.List.Pairwise
import Mathlib.Order.Lattice
import Mathlib.Tactic.Abel

/-!
# Lists of closed intervals

An ordered list of closed intervals can be kept flat, as the sequence of its
bounds.  A reader walks over the pairs and gives up at the first lower bound
above the point it looks for.  Bounds that touch can be dropped from the flat
list, which joins the two intervals.

The last upper bound takes no part in either operation.  So a list whose last
interval runs backwards is handled like one that ends at any other bound.
-/

namespace Tomato64.Intervals

open List

variable {α : Type*} (intervals : List (α × α))

/-- The bounds of all intervals in a row. -/
def flatten : List α :=
  intervals.flatMap fun interval => [interval.1, interval.2]

@[simp]
theorem flatten_nil : flatten ([] : List (α × α)) = [] :=
  rfl

variable (interval : α × α)

@[simp]
theorem flatten_cons (intervals : List (α × α)) :
    flatten (interval :: intervals) =
      interval.1 :: interval.2 :: flatten intervals :=
  rfl

theorem flatten_append (left right : List (α × α)) :
    flatten (left ++ right) = flatten left ++ flatten right := by
  simp [flatten]

theorem length_flatten : (flatten intervals).length = 2 * intervals.length := by
  induction intervals with
  | nil => rfl
  | cons interval intervals ih =>
    simp only [flatten_cons, length_cons, ih]
    omega

/-! ## Joining intervals that touch -/

section Join

variable [DecidableEq α]

/-- The elements behind `previous` that differ from both neighbours, and the
last one. -/
def dropTouchingFrom (previous : α) : List α → List α
  | [] => []
  | [last] => [last]
  | value :: next :: others =>
    if value ≠ previous ∧ value ≠ next then
      value :: dropTouchingFrom value (next :: others)
    else dropTouchingFrom value (next :: others)

/-- The first element, the last element and the elements that differ from both
neighbours. -/
def dropTouching : List α → List α
  | [] => []
  | first :: others => first :: dropTouchingFrom first others

/-- An interval that ends where the next one begins is extended by it. -/
def join : List (α × α) → List (α × α)
  | [] => []
  | interval :: intervals =>
    match join intervals with
    | [] => [interval]
    | next :: others =>
      if interval.2 = next.1 then (interval.1, next.2) :: others
      else interval :: next :: others

theorem join_cons (intervals : List (α × α)) :
    join (interval :: intervals) =
      match join intervals with
      | [] => [interval]
      | next :: others =>
        if interval.2 = next.1 then (interval.1, next.2) :: others
        else interval :: next :: others :=
  rfl

theorem length_join_le : (join intervals).length ≤ intervals.length := by
  induction intervals with
  | nil => exact Nat.le_refl _
  | cons interval intervals ih =>
    rw [join]
    split
    · simp
    · next next others hjoin =>
      rw [hjoin] at ih
      split <;> simp only [length_cons] at ih ⊢ <;> omega

theorem exists_join_cons (intervals : List (α × α)) :
    ∃ upper others, join (interval :: intervals) =
      (interval.1, upper) :: others := by
  rw [join]
  split
  · exact ⟨_, _, rfl⟩
  · split
    · exact ⟨_, _, rfl⟩
    · exact ⟨_, _, rfl⟩

theorem dropTouchingFrom_flatten {interval : α × α} {intervals : List (α × α)}
    (hproper : ∀ other ∈ interval :: intervals, other.1 ≠ other.2) :
    interval.1 :: dropTouchingFrom interval.1
        (interval.2 :: flatten intervals) =
      flatten (join (interval :: intervals)) := by
  induction intervals generalizing interval with
  | nil => simp [dropTouchingFrom, join]
  | cons next others ih =>
    obtain ⟨hinterval, hothers⟩ := forall_mem_cons.1 hproper
    obtain ⟨hnext, -⟩ := forall_mem_cons.1 hothers
    have hjoin := ih hothers
    obtain ⟨upper, rest, hcons⟩ := exists_join_cons next others
    rw [hcons, flatten_cons, List.cons.injEq] at hjoin
    rw [join, hcons, flatten_cons, dropTouchingFrom]
    by_cases htouch : interval.2 = next.1
    · -- Neither of the two equal bounds is kept.
      have hlast : dropTouchingFrom interval.2
          (next.1 :: next.2 :: flatten others) =
            dropTouchingFrom next.1 (next.2 :: flatten others) := by
        rw [dropTouchingFrom, if_neg (by simp [htouch])]
      rw [if_neg (by simp [htouch]), hlast, hjoin.2]
      simp [htouch]
    · have hkeep : dropTouchingFrom interval.2
          (next.1 :: next.2 :: flatten others) =
            next.1 :: dropTouchingFrom next.1 (next.2 :: flatten others) := by
        rw [dropTouchingFrom, if_pos ⟨Ne.symm htouch, hnext⟩]
      rw [if_pos ⟨Ne.symm hinterval, htouch⟩, hkeep, hjoin.2]
      simp [htouch]

theorem dropTouching_flatten {intervals : List (α × α)}
    (hproper : ∀ interval ∈ intervals, interval.1 ≠ interval.2) :
    dropTouching (flatten intervals) = flatten (join intervals) := by
  cases intervals with
  | nil => rfl
  | cons interval intervals => exact dropTouchingFrom_flatten hproper

/-- What stands before an interval is joined without a look at the upper bound
of that interval. -/
theorem exists_join_append (front : List (α × α)) (lower : α) :
    ∃ joined start, ∀ upper others,
      join ((lower, upper) :: others) = (lower, upper) :: others →
      join (front ++ (lower, upper) :: others) =
        joined ++ (start, upper) :: others := by
  induction front with
  | nil => exact ⟨[], lower, fun upper others hjoin => hjoin⟩
  | cons interval front ih =>
    obtain ⟨joined, start, hfront⟩ := ih
    cases joined with
    | nil =>
      by_cases htouch : interval.2 = start
      · refine ⟨[], interval.1, fun upper others hjoin => ?_⟩
        rw [cons_append, join, hfront upper others hjoin]
        simp [htouch]
      · refine ⟨[interval], start, fun upper others hjoin => ?_⟩
        rw [cons_append, join, hfront upper others hjoin]
        simp [htouch]
    | cons next joined =>
      by_cases htouch : interval.2 = next.1
      · refine ⟨(interval.1, next.2) :: joined, start,
          fun upper others hjoin => ?_⟩
        rw [cons_append, join, hfront upper others hjoin]
        simp [htouch]
      · refine ⟨interval :: next :: joined, start, fun upper others hjoin => ?_⟩
        rw [cons_append, join, hfront upper others hjoin]
        simp [htouch]

/-- An interval that touches the next one can be joined with it beforehand. -/
theorem join_append_touching (front : List (α × α)) (lower middle upper : α)
    (others : List (α × α)) :
    join (front ++ (lower, middle) :: (middle, upper) :: others) =
      join (front ++ (lower, upper) :: others) := by
  induction front with
  | nil =>
    rw [nil_append, nil_append, join, join, join]
    cases join others with
    | nil => simp
    | cons next rest =>
      by_cases htouch : upper = next.1
      · simp [htouch]
      · simp [htouch]
  | cons interval front ih =>
    rw [cons_append, cons_append, join, join, ih]

/-- Nothing is joined across a bound that no interval before it touches. -/
theorem join_append_of_ne {front : List (α × α)} {next : α × α}
    (hfront : ∀ interval ∈ front, interval.2 ≠ next.1) (others : List (α × α)) :
    join (front ++ next :: others) = join front ++ join (next :: others) := by
  induction front with
  | nil => rfl
  | cons interval front ih =>
    rw [forall_mem_cons] at hfront
    have hrest := ih hfront.2
    rw [cons_append, join_cons interval, hrest, join_cons interval]
    cases hjoin : join front with
    | nil =>
      obtain ⟨upper, rest, hcons⟩ := exists_join_cons next others
      simp [hcons, hfront.1]
    | cons second rest =>
      by_cases htouch : interval.2 = second.1
      · simp [htouch]
      · simp [htouch]

/-- Joining keeps the total length. -/
theorem sum_join [AddCommGroup α] :
    ((join intervals).map fun interval => interval.2 - interval.1).sum =
      (intervals.map fun interval => interval.2 - interval.1).sum := by
  induction intervals with
  | nil => rfl
  | cons interval intervals ih =>
    rw [join, map_cons, sum_cons, ← ih]
    cases join intervals with
    | nil => simp
    | cons next rest =>
      by_cases htouch : interval.2 = next.1
      · simp only [htouch, if_true, map_cons, sum_cons]
        abel
      · simp [htouch]

end Join

/-! ## Looking up a point -/

section Order

variable [LinearOrder α]

def Covers (intervals : List (α × α)) (point : α) : Prop :=
  ∃ interval ∈ intervals, interval.1 ≤ point ∧ point ≤ interval.2

/-- The walk over a flat list, up to the first lower bound above the point. -/
def lookup : List α → α → Bool
  | lower :: upper :: others, point =>
    lower ≤ point && (point ≤ upper || lookup others point)
  | _, _ => false

/-- The intervals are in order and share no more than a bound. -/
structure Ordered (intervals : List (α × α)) : Prop where
  forward : ∀ interval ∈ intervals, interval.1 ≤ interval.2
  apart : intervals.Pairwise fun left right => left.2 ≤ right.1

variable {intervals : List (α × α)} {point : α}

theorem ordered_cons {interval : α × α} :
    Ordered (interval :: intervals) ↔
      interval.1 ≤ interval.2 ∧
        (∀ other ∈ intervals, interval.2 ≤ other.1) ∧ Ordered intervals := by
  constructor
  · rintro ⟨hforward, hapart⟩
    rw [forall_mem_cons] at hforward
    rw [pairwise_cons] at hapart
    exact ⟨hforward.1, hapart.1, ⟨hforward.2, hapart.2⟩⟩
  · rintro ⟨hinterval, hothers, hordered⟩
    exact ⟨forall_mem_cons.2 ⟨hinterval, hordered.forward⟩,
      pairwise_cons.2 ⟨hothers, hordered.apart⟩⟩

theorem covers_cons {interval : α × α} :
    Covers (interval :: intervals) point ↔
      (interval.1 ≤ point ∧ point ≤ interval.2) ∨ Covers intervals point := by
  simp [Covers]

theorem covers_append {left right : List (α × α)} :
    Covers (left ++ right) point ↔ Covers left point ∨ Covers right point := by
  simp [Covers, or_and_right, exists_or]

/-- The walk finds what it passes. -/
theorem lookup_flatten_cons (intervals : List (α × α)) (point : α) :
    lookup (flatten (interval :: intervals)) point = true ↔
      interval.1 ≤ point ∧
        (point ≤ interval.2 ∨ lookup (flatten intervals) point = true) := by
  simp [lookup]

theorem not_lookup_of_forall_lt
    (hupper : ∀ interval ∈ intervals, interval.2 < point) :
    lookup (flatten intervals) point = false := by
  induction intervals with
  | nil => rfl
  | cons interval intervals ih =>
    obtain ⟨hinterval, hothers⟩ := forall_mem_cons.1 hupper
    rw [Bool.eq_false_iff, ne_eq, lookup_flatten_cons, ih hothers]
    simp [not_le.2 hinterval]

/-- Nothing behind a lower bound above the point is looked at. -/
theorem lookup_append_of_lt {left right : List (α × α)}
    (hright : ∀ interval ∈ right, point < interval.1) :
    lookup (flatten (left ++ right)) point = lookup (flatten left) point := by
  induction left with
  | nil =>
    cases right with
    | nil => rfl
    | cons interval right =>
      have hlower := hright interval mem_cons_self
      rw [Bool.eq_iff_iff, nil_append, lookup_flatten_cons]
      simp [lookup, not_le.2 hlower]
  | cons interval left ih =>
    rw [Bool.eq_iff_iff, cons_append, lookup_flatten_cons,
      lookup_flatten_cons, ih]

/-- In a list in order the walk finds exactly the points that lie in an
interval. -/
theorem lookup_flatten_iff (hordered : Ordered intervals) (point : α) :
    lookup (flatten intervals) point = true ↔ Covers intervals point := by
  induction intervals with
  | nil => simp [lookup, Covers]
  | cons interval intervals ih =>
    obtain ⟨hinterval, hothers, hrest⟩ := ordered_cons.1 hordered
    rw [lookup_flatten_cons, ih hrest, covers_cons]
    constructor
    · rintro ⟨hlower, hupper | hcovers⟩
      · exact .inl ⟨hlower, hupper⟩
      · exact .inr hcovers
    rintro (⟨hlower, hupper⟩ | hcovers)
    · exact ⟨hlower, .inl hupper⟩
    · obtain ⟨other, hother, hlower, -⟩ := id hcovers
      exact ⟨hinterval.trans ((hothers other hother).trans hlower),
        .inr hcovers⟩

theorem join_spec (hordered : Ordered intervals) :
    Ordered (join intervals) ∧
      (∀ point, Covers (join intervals) point ↔ Covers intervals point) ∧
      (join intervals).Pairwise (fun left right => left.2 < right.1) := by
  induction intervals with
  | nil => exact ⟨hordered, fun point => Iff.rfl, .nil⟩
  | cons interval intervals ih =>
    obtain ⟨hinterval, hothers, hrest⟩ := ordered_cons.1 hordered
    obtain ⟨hjoined, hcovers, hapart⟩ := ih hrest
    cases intervals with
    | nil => exact ⟨hordered, fun point => Iff.rfl, by simp [join]⟩
    | cons second intervals =>
      obtain ⟨upper, others, hcons⟩ := exists_join_cons second intervals
      have hsecond := hothers second mem_cons_self
      rw [hcons] at hjoined hcovers hapart
      obtain ⟨hupper, hbehind, htail⟩ := ordered_cons.1 hjoined
      obtain ⟨hstrict, htailStrict⟩ := pairwise_cons.1 hapart
      rw [join, hcons]
      simp only at hupper hbehind hstrict ⊢
      by_cases htouch : interval.2 = second.1
      · rw [if_pos htouch]
        refine ⟨ordered_cons.2 ⟨hinterval.trans (htouch ▸ hupper),
          hbehind, htail⟩, fun point => ?_,
          pairwise_cons.2 ⟨hstrict, htailStrict⟩⟩
        rw [covers_cons, covers_cons, ← hcovers point, covers_cons]
        constructor
        · rintro (⟨hlower, hbelow⟩ | hcovered)
          · rcases le_total point interval.2 with hleft | hright
            · exact .inl ⟨hlower, hleft⟩
            · exact .inr (.inl ⟨htouch ▸ hright, hbelow⟩)
          · exact .inr (.inr hcovered)
        · rintro (⟨hlower, hbelow⟩ | ⟨hlower, hbelow⟩ | hcovered)
          · exact .inl ⟨hlower, hbelow.trans (htouch ▸ hupper)⟩
          · exact .inl ⟨hinterval.trans (htouch ▸ hlower), hbelow⟩
          · exact .inr hcovered
      · rw [if_neg htouch]
        have hlt : interval.2 < second.1 := lt_of_le_of_ne hsecond htouch
        have hall : ∀ other ∈ (second.1, upper) :: others,
            interval.2 < other.1 := by
          rintro other (_ | ⟨_, hother⟩)
          · exact hlt
          · exact hlt.trans_le (hupper.trans (hbehind other hother))
        refine ⟨ordered_cons.2 ⟨hinterval,
          fun other hother => (hall other hother).le, hjoined⟩,
          fun point => ?_, pairwise_cons.2 ⟨hall, hapart⟩⟩
        rw [covers_cons, hcovers point]
        exact covers_cons.symm

end Order

end Tomato64.Intervals
