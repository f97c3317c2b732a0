import Mathlib.Data.List.Basic
import Mathlib.Data.BitVec

/-!
# Chains of packet filter rules

A table is a list of rules, each with the chain it is appended to.  A packet
walks through the rules of a chain in order.  A rule whose tests all hold
rewrites the mark of the packet, enters another chain, or drops the packet.

A walk also keeps the chains that it has entered.
-/

namespace Tomato64.Chains

open List

abbrev Mark := BitVec 32

/-- `--set-mark value/mask` -/
def setMark (value mask mark : Mark) : Mark :=
  (mark &&& ~~~mask) ||| value

/-- `-m mark --mark value/mask` -/
def markIs (value mask mark : Mark) : Bool :=
  mark &&& mask = value

inductive Target (Chain : Type) where
  | setMark (value mask : Mark)
  | jump (chain : Chain)
  | drop
deriving DecidableEq, Repr

structure Rule (Chain Test : Type) where
  chain : Chain
  tests : List Test
  target : Target Chain
deriving DecidableEq, Repr

/-- The packet on its way: its mark, and the chains entered so far. -/
structure Walk (Chain : Type) where
  mark : Mark
  entered : List Chain
deriving DecidableEq, Repr

section
variable {Chain Test : Type}
variable (holds : Test → Mark → Bool)
variable (enter : Chain → Walk Chain → Option (Walk Chain × Bool))

def Rule.applies (rule : Rule Chain Test) (mark : Mark) : Bool :=
  rule.tests.all fun test => holds test mark

/-- The rules of one chain.  The second result says whether the packet has
been dropped. -/
def runRules : List (Rule Chain Test) → Walk Chain →
    Option (Walk Chain × Bool)
  | [], walk => some (walk, false)
  | rule :: rules, walk =>
    if rule.applies holds walk.mark then
      match rule.target with
      | .setMark value mask =>
        runRules rules { walk with mark := setMark value mask walk.mark }
      | .jump chain =>
        match enter chain walk with
        | none => none
        | some (walk, true) => some (walk, true)
        | some (walk, false) => runRules rules walk
      | .drop => some (walk, true)
    else runRules rules walk

variable [DecidableEq Chain] (table : List (Rule Chain Test))

def chainRules (chain : Chain) : List (Rule Chain Test) :=
  table.filter fun rule => rule.chain = chain

/-- A chain of the table.  There is no result if chains call each other more
than `depth` deep. -/
def runChain : ℕ → Chain → Walk Chain → Option (Walk Chain × Bool)
  | 0, _, _ => none
  | depth + 1, chain, walk =>
    runRules holds (runChain depth) (chainRules table chain)
      { walk with entered := walk.entered ++ [chain] }

end

/-! ## Rules one after the other -/

section
variable {Chain Test : Type}
variable {holds : Test → Mark → Bool}
variable {enter : Chain → Walk Chain → Option (Walk Chain × Bool)}
  {rule : Rule Chain Test}

theorem runRules_cons_of_not_applies
    {walk : Walk Chain} (happlies : rule.applies holds walk.mark = false)
    (rules : List (Rule Chain Test)) :
    runRules holds enter (rule :: rules) walk =
      runRules holds enter rules walk := by
  simp [runRules, happlies]

theorem runRules_jump {chain : Chain}
    {walk next : Walk Chain} (htarget : rule.target = .jump chain)
    (happlies : rule.applies holds walk.mark = true)
    (henter : enter chain walk = some (next, false))
    (rules : List (Rule Chain Test)) :
    runRules holds enter (rule :: rules) walk =
      runRules holds enter rules next := by
  simp [runRules, happlies, htarget, henter]

theorem runRules_setMark {value mask : Mark}
    {walk : Walk Chain} (htarget : rule.target = .setMark value mask)
    (happlies : rule.applies holds walk.mark = true)
    (rules : List (Rule Chain Test)) :
    runRules holds enter (rule :: rules) walk =
      runRules holds enter rules
        { walk with mark := setMark value mask walk.mark } := by
  simp [runRules, happlies, htarget]

/-- The mark after rules that do nothing but write it. -/
def runMarks (holds : Test → Mark → Bool) (rules : List (Rule Chain Test))
    (mark : Mark) : Mark :=
  rules.foldl (fun mark rule =>
    match rule.target with
    | .setMark value mask =>
      if rule.applies holds mark then setMark value mask mark else mark
    | _ => mark) mark

def Rule.Marks (rule : Rule Chain Test) : Prop :=
  ∃ value mask, rule.target = .setMark value mask

theorem runRules_append_of_marks {front : List (Rule Chain Test)}
    (hfront : ∀ rule ∈ front, rule.Marks) (back : List (Rule Chain Test))
    (walk : Walk Chain) :
    runRules holds enter (front ++ back) walk =
      runRules holds enter back
        { walk with mark := runMarks holds front walk.mark } := by
  induction front generalizing walk with
  | nil => rfl
  | cons rule front ih =>
    rw [forall_mem_cons] at hfront
    obtain ⟨⟨value, mask, htarget⟩, hfront⟩ := hfront
    rw [cons_append, runRules, htarget]
    dsimp only
    rw [ih hfront, ih hfront]
    split
    · next happlies => simp [runMarks, htarget, happlies]
    · next happlies => simp [runMarks, htarget, happlies]

variable {rules : List (Rule Chain Test)}

theorem runRules_of_marks
    (hrules : ∀ rule ∈ rules, rule.Marks) (walk : Walk Chain) :
    runRules holds enter rules walk =
      some ({ walk with mark := runMarks holds rules walk.mark }, false) := by
  rw [← append_nil rules, runRules_append_of_marks hrules, append_nil, runRules]

theorem runMarks_append (front back : List (Rule Chain Test)) (mark : Mark) :
    runMarks holds (front ++ back) mark =
      runMarks holds back (runMarks holds front mark) :=
  foldl_append

section
variable [DecidableEq Chain] (chain : Chain)

theorem chainRules_append (front back : List (Rule Chain Test)) :
    chainRules (front ++ back) chain =
      chainRules front chain ++ chainRules back chain :=
  filter_append ..

theorem chainRules_flatMap {α : Type} (values : List α)
    (rulesOf : α → List (Rule Chain Test)) :
    chainRules (values.flatMap rulesOf) chain =
      values.flatMap fun value => chainRules (rulesOf value) chain :=
  filter_flatMap

theorem chainRules_of_forall (hrules : ∀ rule ∈ rules, rule.chain = chain) :
    chainRules rules chain = rules :=
  filter_eq_self.2 fun rule hrule => by simpa using hrules rule hrule

theorem chainRules_eq_nil (hrules : ∀ rule ∈ rules, rule.chain ≠ chain) :
    chainRules rules chain = [] :=
  filter_eq_nil_iff.2 fun rule hrule => by simpa using hrules rule hrule

end

end

/-! ## Bits of a mark -/

@[simp]
theorem getLsbD_setMark (value mask mark : Mark) {bit : ℕ} (hbit : bit < 32) :
    (setMark value mask mark).getLsbD bit =
      (mark.getLsbD bit && !mask.getLsbD bit || value.getLsbD bit) := by
  simp [setMark, hbit]

theorem setMark_and_mask (value mask mark : Mark) :
    setMark value mask mark &&& mask = value &&& mask := by
  apply BitVec.eq_of_getLsbD_eq
  intro bit hbit
  rw [BitVec.getLsbD_and, BitVec.getLsbD_and, getLsbD_setMark _ _ _ hbit]
  cases mask.getLsbD bit <;> simp

/-- The bits outside the mask get those of the value. -/
theorem setMark_and_not_mask (value mask mark : Mark) :
    setMark value mask mark &&& ~~~mask =
      (mark &&& ~~~mask) ||| (value &&& ~~~mask) := by
  apply BitVec.eq_of_getLsbD_eq
  intro bit hbit
  simp only [BitVec.getLsbD_and, BitVec.getLsbD_or, BitVec.getLsbD_not, hbit,
    getLsbD_setMark, decide_true, Bool.true_and]
  cases mask.getLsbD bit <;> simp

/-- A value changes no bit outside the mask if and only if it lies within
it. -/
theorem setMark_keeps_iff (value mask : Mark) :
    (∀ mark, setMark value mask mark &&& ~~~mask = mark &&& ~~~mask) ↔
      value &&& mask = value := by
  have hsplit : (value &&& mask) ||| (value &&& ~~~mask) = value := by
    rw [← BitVec.and_or_distrib_left, BitVec.or_not_self, BitVec.and_allOnes]
  constructor
  · intro hkeeps
    have hzero := hkeeps 0#32
    rw [setMark_and_not_mask, BitVec.zero_and, BitVec.zero_or] at hzero
    rw [hzero, BitVec.or_zero] at hsplit
    exact hsplit
  · intro hvalue mark
    have hzero : value &&& ~~~mask = 0#32 := by
      rw [← hvalue, BitVec.and_assoc, BitVec.and_not_self]
      exact BitVec.and_zero
    rw [setMark_and_not_mask, hzero, BitVec.or_zero]

theorem twoPow_ne_zero {bit : ℕ} (hbit : bit < 32) :
    BitVec.twoPow 32 bit ≠ 0#32 := by
  intro hzero
  have hbits := congrArg (fun bits => bits.getLsbD bit) hzero
  simp [hbit] at hbits

theorem markIs_twoPow (mark : Mark) {bit : ℕ} (hbit : bit < 32) :
    markIs (BitVec.twoPow 32 bit) (BitVec.twoPow 32 bit) mark =
      mark.getLsbD bit := by
  have hne := twoPow_ne_zero hbit
  rw [markIs, BitVec.and_twoPow]
  cases mark.getLsbD bit <;> simp [hne.symm]

theorem markIs_zero_twoPow (mark : Mark) {bit : ℕ} (hbit : bit < 32) :
    markIs 0 (BitVec.twoPow 32 bit) mark = !mark.getLsbD bit := by
  have hne := twoPow_ne_zero hbit
  rw [markIs, BitVec.and_twoPow]
  cases mark.getLsbD bit <;> simp [hne]

end Tomato64.Chains
