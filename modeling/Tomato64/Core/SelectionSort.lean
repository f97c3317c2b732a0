import Mathlib.Data.List.Count
import Mathlib.Data.List.Pairwise
import Mathlib.Order.Lattice

/-!
# Selection sort by exchanges

A round of the sort finds the position of a least element and exchanges that
element with the first one.  The position comes from a search that is a
parameter here; it has to find the leftmost least element.

An exchange moves the displaced element to an arbitrary place, so the sort is
not stable.  `Leads` says which of several greatest elements ends up last: it
follows the positions that the displaced elements are moved to.
-/

namespace Tomato64.SelectionSort

open List

variable {α β : Type*} (index : ℕ) (first : β) (others : List β)

def exchange : β × List β :=
  ((first :: others).getD index first, ((first :: others).set index first).tail)

/-- The rounds of the sort, each one place further on. -/
def sortWith (search : List β → ℕ) : ℕ → List β → List β
  | 0, _ => []
  | _ + 1, [] => []
  | rounds + 1, first :: others =>
    let exchanged := exchange (search (first :: others)) first others
    exchanged.1 :: sortWith search rounds exchanged.2

@[simp]
theorem exchange_zero : exchange 0 first others = (first, others) := by
  simp [exchange]

@[simp]
theorem exchange_succ :
    exchange (index + 1) first others =
      (others.getD index first, others.set index first) := by
  simp [exchange]

theorem exchange_perm :
    ((exchange index first others).1 :: (exchange index first others).2).Perm
      (first :: others) := by
  cases index with
  | zero => simp
  | succ index =>
    rw [exchange_succ]
    induction others generalizing index with
    | nil => simp
    | cons second others ih =>
      cases index with
      | zero => simpa using Perm.swap first second others
      | succ index =>
        have hothers := (ih index).cons second
        exact (Perm.swap _ _ _).trans
          (hothers.trans (Perm.swap _ _ _))

variable {index first others} in
theorem mem_of_mem_exchange {other : β}
    (hother : other ∈ (exchange index first others).2) :
    other ∈ first :: others :=
  (exchange_perm index first others).mem_iff.1 (mem_cons_of_mem _ hother)

theorem length_exchange :
    (exchange index first others).2.length = others.length := by
  simp [exchange]

section Key

variable [LinearOrder α] {key : β → α}

/-- The leftmost of the elements with the least key. -/
structure LeastAt (key : β → α) (values : List β) (index : ℕ) (value : β) :
    Prop where
  value_at : values[index]? = some value
  least : ∀ other ∈ values, key value ≤ key other
  leftmost : ∀ place other, place < index → values[place]? = some other →
    key value < key other

/-- The search finds the leftmost least element of every list of `P`. -/
def Finds (key : β → α) (P : β → Prop) (search : List β → ℕ) : Prop :=
  ∀ first others, (∀ value ∈ first :: others, P value) →
    ∃ value, LeastAt key (first :: others) (search (first :: others)) value

theorem exchange_fst {index : ℕ} {first value : β} {others : List β}
    (hleast : LeastAt key (first :: others) index value) :
    (exchange index first others).1 = value := by
  simp [exchange, hleast.value_at]

variable {P : β → Prop} {search : List β → ℕ}

theorem sortWith_perm (search : List β → ℕ) (values : List β) :
    (sortWith search values.length values).Perm values := by
  induction hlength : values.length generalizing values with
  | zero => rw [length_eq_zero_iff.1 hlength, sortWith]
  | succ rounds ih =>
    obtain ⟨first, others, rfl⟩ := exists_cons_of_length_eq_add_one hlength
    have hrest := ih (exchange (search (first :: others)) first others).2
      (by simpa [length_exchange] using hlength)
    exact (hrest.cons _).trans (exchange_perm _ _ _)

theorem sortWith_sorted (hsearch : Finds key P search) {values : List β}
    (hvalues : ∀ value ∈ values, P value) :
    (sortWith search values.length values).Pairwise
      fun left right => key left ≤ key right := by
  induction hlength : values.length generalizing values with
  | zero => exact .nil
  | succ rounds ih =>
    obtain ⟨first, others, rfl⟩ := exists_cons_of_length_eq_add_one hlength
    obtain ⟨value, hleast⟩ := hsearch first others hvalues
    have hrestLength : (exchange (search (first :: others)) first
        others).2.length = rounds := by
      simpa [length_exchange] using hlength
    rw [sortWith, exchange_fst hleast, pairwise_cons]
    refine ⟨fun other hother => ?_, ih
      (fun other hother => hvalues other (mem_of_mem_exchange hother))
        hrestLength⟩
    have hmem := (sortWith_perm search _).mem_iff.1
      (hrestLength ▸ hother)
    exact hleast.least other (mem_of_mem_exchange hmem)

/-! ## Which greatest element comes last -/

/-- From a position the way leads on to the place in the sorted list of the
element that stands there, until an element with the greatest key is met. -/
inductive Leads (key : β → α) (bound : α) (values : List β) : ℕ → β → Prop
  | here {index : ℕ} {value : β} (hat : values[index]? = some value)
      (hbound : key value = bound) : Leads key bound values index value
  | hop {index : ℕ} {other value : β} (hat : values[index]? = some other)
      (hother : key other < bound)
      (hlead : Leads key bound values
        (values.countP fun less => key less < key other) value) :
      Leads key bound values index value

theorem Leads.unique {bound : α} {values : List β} {index : ℕ}
    {left right : β} (hleft : Leads key bound values index left)
    (hright : Leads key bound values index right) : left = right := by
  induction hleft with
  | here hat hbound =>
    cases hright with
    | here hat' hbound' => exact Option.some.inj (hat.symm.trans hat')
    | hop hat' hother' hlead' =>
      cases Option.some.inj (hat.symm.trans hat')
      exact absurd hbound hother'.ne
  | hop hat hother hlead ih =>
    cases hright with
    | here hat' hbound' =>
      cases Option.some.inj (hat.symm.trans hat')
      exact absurd hbound' hother.ne
    | hop hat' hother' hlead' =>
      cases Option.some.inj (hat.symm.trans hat')
      exact ih hlead'

/-- Equal keys are greatest keys. -/
def TiesAt (key : β → α) (bound : α) (values : List β) : Prop :=
  values.Pairwise fun left right => key left = key right → key left = bound

omit [LinearOrder α] in
theorem TiesAt.perm {bound : α} {left right : List β}
    (hties : TiesAt key bound left) (hperm : left.Perm right) :
    TiesAt key bound right := by
  apply (hperm.pairwise_iff ?_).1 hties
  intro one other hone hsame
  exact hsame.trans (hone hsame.symm)

section Round

variable {bound : α} {index : ℕ} {first value : β} {others : List β}

variable (hleast : LeastAt key (first :: others) index value)
include hleast

/-- The element that a round puts first is at its place already. -/
theorem leads_least (hvalue : key value < bound) {last : β}
    (hlead : Leads key bound (first :: others) 0 last) :
    Leads key bound (first :: others) index last := by
  refine .hop hleast.value_at hvalue ?_
  rw [countP_eq_zero.2]
  · exact hlead
  · intro other hother
    simpa using hleast.least other hother

/-- Behind a round, a position holds what it held before, or the element that
the round has displaced. -/
theorem getElem?_exchange {place : ℕ} {other : β}
    (hat : (exchange index first others).2[place]? = some other) :
    (first :: others)[place + 1]? = some other ∨
      (index = place + 1 ∧ other = first) := by
  cases index with
  | zero => exact .inl (by simpa using hat)
  | succ index =>
    rw [exchange_succ] at hat
    by_cases hplace : index = place
    · subst hplace
      have hlt : index < others.length := by
        have hsome := List.getElem?_eq_some_iff.1 hleast.value_at
        simpa using hsome.1
      rw [getElem?_set_self hlt, Option.some.injEq] at hat
      exact .inr ⟨rfl, hat.symm⟩
    · rw [getElem?_set_ne hplace] at hat
      exact .inl (by simpa using hat)

/-- The way behind a round is the way before it. -/
theorem leads_of_exchange
    (hbound : ∀ other ∈ first :: others, key other ≤ bound)
    (hties : TiesAt key bound (first :: others)) {place : ℕ} {last : β}
    (hlead : Leads key bound (exchange index first others).2 place last) :
    Leads key bound (first :: others) (place + 1) last := by
  have hperm := exchange_perm index first others
  rw [exchange_fst hleast] at hperm
  have hdistinct := (pairwise_cons.1 (hties.perm hperm.symm)).1
  -- A displaced element was not less than the one it made room for.
  have hdisplaced : ∀ place, index = place + 1 → key value < bound := by
    rintro place rfl
    exact (hleast.leftmost 0 first (Nat.succ_pos _) rfl).trans_le
      (hbound first mem_cons_self)
  induction hlead with
  | @here place last hat hlast =>
    rcases getElem?_exchange hleast hat with hsame | ⟨hindex, rfl⟩
    · exact .here hsame hlast
    · rw [← hindex]
      exact leads_least hleast (hdisplaced place hindex)
        (.here rfl hlast)
  | @hop place other last hat hother hlead ih =>
    have hmem := mem_of_getElem? hat
    have hless : key value < key other := by
      refine lt_of_le_of_ne (hleast.least other (mem_of_mem_exchange hmem))
        fun hsame => ?_
      exact hother.ne (hsame ▸ hdistinct other hmem hsame)
    have hcount : ((first :: others).countP fun less =>
        decide (key less < key other)) =
        ((exchange index first others).2.countP fun less =>
          decide (key less < key other)) + 1 := by
      rw [← hperm.countP_eq, countP_cons_of_pos (by simpa using hless)]
    rcases getElem?_exchange hleast hat with hsame | ⟨hindex, rfl⟩
    · exact .hop hsame hother (hcount ▸ ih)
    · rw [← hindex]
      exact leads_least hleast (hdisplaced place hindex)
        (.hop rfl hother (hcount ▸ ih))

end Round

/-- The way from the last position leads to the element that the sort leaves
there. -/
theorem leads_getLast (hsearch : Finds key P search) {bound : α}
    {values : List β} (hvalues : ∀ value ∈ values, P value)
    (hbound : ∀ value ∈ values, key value ≤ bound)
    (hties : TiesAt key bound values)
    (hgreatest : ∃ value ∈ values, key value = bound) {last : β}
    (hlast : (sortWith search values.length values).getLast? = some last) :
    Leads key bound values (values.length - 1) last := by
  induction hlength : values.length generalizing values with
  | zero => simp [length_eq_zero_iff.1 hlength] at hgreatest
  | succ rounds ih =>
    obtain ⟨first, others, rfl⟩ := exists_cons_of_length_eq_add_one hlength
    obtain ⟨value, hleast⟩ := hsearch first others hvalues
    have hperm := exchange_perm (search (first :: others)) first others
    have hrestLength := length_exchange (search (first :: others)) first others
    rw [length_cons, sortWith, exchange_fst hleast] at hlast
    rw [exchange_fst hleast] at hperm
    rw [length_cons, Nat.add_right_cancel_iff] at hlength
    set rest := (exchange (search (first :: others)) first others).2 with hrest
    have hmem : ∀ other ∈ rest, other ∈ first :: others :=
      fun _ => mem_of_mem_exchange
    obtain ⟨greatest, hgreatestMem, hgreatest⟩ := hgreatest
    cases rounds with
    | zero =>
      obtain rfl : others = [] := length_eq_zero_iff.1 hlength
      have hfirst : greatest = first := by simpa using hgreatestMem
      have hvalue : value = first := by
        simpa using mem_of_getElem? hleast.value_at
      rw [length_nil, sortWith, getLast?_singleton,
        Option.some.injEq, hvalue] at hlast
      subst hlast hfirst
      exact .here rfl hgreatest
    | succ rounds =>
      rw [← hrestLength] at hlast hlength
      have hsorted := (sortWith_perm search rest).length_eq
      have hne : sortWith search rest.length rest ≠ [] := by
        intro hnil
        rw [hnil] at hsorted
        simp [hlength] at hsorted
      rw [getLast?_cons_of_ne_nil hne] at hlast
      have hrestGreatest : ∃ other ∈ rest, key other = bound := by
        rcases mem_cons.1 (hperm.mem_iff.2 hgreatestMem) with
          rfl | hother
        · obtain ⟨second, tail, hcons⟩ :=
            exists_cons_of_length_eq_add_one hlength
          have hsecond : second ∈ rest := by simp [hcons]
          refine ⟨second, hsecond, le_antisymm
            (hbound second (hmem second hsecond)) ?_⟩
          exact hgreatest ▸ hleast.least second (hmem second hsecond)
        · exact ⟨greatest, hother, hgreatest⟩
      have hlead := ih (fun other hother => hvalues other (hmem other hother))
        (fun other hother => hbound other (hmem other hother))
        (pairwise_cons.1 (hties.perm hperm.symm)).2 hrestGreatest
        hlast hlength
      exact leads_of_exchange hleast hbound hties hlead

end Key

end Tomato64.SelectionSort
