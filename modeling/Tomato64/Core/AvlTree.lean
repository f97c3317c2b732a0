import Mathlib.Data.List.Perm.Basic

/-!
# Balanced trees

Binary trees whose nodes store a height.  A node is balanced again when the
stored heights of its two sides are more than one apart: it is rotated, and the
rotation balances both nodes that it has moved.  A new leaf starts with the
height of an empty tree, and gets its own one when it is balanced.

The rotations call the balancing, so that it is a recursion without an obvious
measure.  It is given a number of steps here, and the heights of the two sides
are always enough of them.
-/

namespace Tomato64.AvlTree

variable {α : Type}

inductive Avl (α : Type) where
  | nil
  | node (left : Avl α) (value : α) (right : Avl α) (height : ℕ)

namespace Avl

/-- The stored height. -/
def height : Avl α → ℕ
  | nil => 0
  | node _ _ _ height => height

@[simp]
theorem height_node (left : Avl α) (value : α) (right : Avl α)
    (stored : ℕ) : (node left value right stored).height = stored :=
  rfl

def toList : Avl α → List α
  | nil => []
  | node left value right _ => left.toList ++ value :: right.toList

def map (f : α → α) : Avl α → Avl α
  | nil => nil
  | node left value right height =>
    node (left.map f) (f value) (right.map f) height

/-- The right side is higher. -/
def rightHeavy : Avl α → Bool
  | nil => false
  | node left _ right _ => left.height < right.height

/-- The left side is higher. -/
def leftHeavy : Avl α → Bool
  | nil => false
  | node left _ right _ => right.height < left.height

end Avl

open Avl

def rotateLeft (balance : Avl α → Option (Avl α)) :
    Avl α → Option (Avl α)
  | node left value (node middle up right upHeight) height => do
      let down ← balance (node left value middle height)
      balance (node down up right upHeight)
  | _ => none

def rotateRight (balance : Avl α → Option (Avl α)) :
    Avl α → Option (Avl α)
  | node (node left up middle upHeight) value right height => do
      let down ← balance (node middle value right height)
      balance (node left up down upHeight)
  | _ => none

/-- The right side, turned when it leans to the left. -/
def turnRight (balance : Avl α → Option (Avl α)) (right : Avl α) :
    Option (Avl α) :=
  if right.leftHeavy then rotateRight balance right else some right

def turnLeft (balance : Avl α → Option (Avl α)) (left : Avl α) :
    Option (Avl α) :=
  if left.rightHeavy then rotateLeft balance left else some left

/-- Balancing in a number of steps; none when they do not suffice. -/
def balance : ℕ → Avl α → Option (Avl α)
  | 0, _ => none
  | _ + 1, nil => none
  | steps + 1, node left value right height =>
    if left.height + 1 < right.height then do
      let right ← turnRight (balance steps) right
      rotateLeft (balance steps) (node left value right height)
    else if right.height + 1 < left.height then do
      let left ← turnLeft (balance steps) left
      rotateRight (balance steps) (node left value right height)
    else
      some (node left value right (max left.height right.height + 1))

def rebalance : Avl α → Option (Avl α)
  | nil => none
  | node left value right height =>
    balance (left.height + right.height + 2) (node left value right height)

section
variable (compare : α → α → Ordering)

def insert (value : α) : Avl α → Option (Avl α)
  | nil => some (node nil value nil 0)
  | node left other right height =>
    if compare value other = .lt then do
      let left ← insert value left
      rebalance (node left other right height)
    else do
      let right ← insert value right
      rebalance (node left other right height)

def find (value : α) : Avl α → Option α
  | nil => none
  | node left other right _ =>
    match compare value other with
    | .eq => some other
    | .lt => find value left
    | .gt => find value right

/-- The tree with the value changed that `find` finds. -/
def update (value : α) (f : α → α) : Avl α → Avl α
  | nil => nil
  | node left other right height =>
    match compare value other with
    | .eq => node left (f other) right height
    | .lt => node (update value f left) other right height
    | .gt => node left other (update value f right) height

end

/-- A tree with another one put behind its last value. -/
def moveRight (moved : Avl α) : Avl α → Option (Avl α)
  | nil => some moved
  | node left value right height => do
      let right ← moveRight moved right
      rebalance (node left value right height)

def remove (compare : α → α → Ordering) (value : α) :
    Avl α → Option (Avl α)
  | nil => some nil
  | node left other right height =>
    match compare value other with
    | .eq => moveRight right left
    | .lt => do
        let left ← remove compare value left
        rebalance (node left other right height)
    | .gt => do
        let right ← remove compare value right
        rebalance (node left other right height)

/-! ## Values -/

section
variable {balance : Avl α → Option (Avl α)} (hbalance : ∀ {tree next},
  balance tree = some next → next.toList = tree.toList) {tree next : Avl α}

include hbalance

/-- A rotation keeps the order of the values when balancing does. -/
theorem toList_rotateLeft (hnext : rotateLeft balance tree = some next) :
    next.toList = tree.toList := by
  unfold rotateLeft at hnext
  split at hnext
  · obtain ⟨down, hdown, hup⟩ := Option.bind_eq_some_iff.mp hnext
    rw [hbalance hup, toList, hbalance hdown]
    simp only [toList, List.append_assoc, List.cons_append]
  · cases hnext

theorem toList_rotateRight (hnext : rotateRight balance tree = some next) :
    next.toList = tree.toList := by
  unfold rotateRight at hnext
  split at hnext
  · obtain ⟨down, hdown, hup⟩ := Option.bind_eq_some_iff.mp hnext
    rw [hbalance hup, toList, hbalance hdown]
    simp only [toList, List.append_assoc, List.cons_append]
  · cases hnext

end

variable {tree : Avl α}

theorem toList_balance {steps : ℕ} {next : Avl α}
    (hnext : balance steps tree = some next) : next.toList = tree.toList := by
  induction steps generalizing tree next with
  | zero => cases hnext
  | succ steps ih =>
    cases tree with
    | nil => cases hnext
    | node left value right height =>
      rw [balance] at hnext
      split at hnext
      · obtain ⟨turned, hturned, hrotated⟩ := Option.bind_eq_some_iff.mp hnext
        have hright : turned.toList = right.toList := by
          unfold turnRight at hturned
          split at hturned
          · exact toList_rotateRight ih hturned
          · rw [Option.some.inj hturned]
        rw [toList_rotateLeft ih hrotated, toList, hright, toList]
      · split at hnext
        · obtain ⟨turned, hturned, hrotated⟩ := Option.bind_eq_some_iff.mp hnext
          have hleft : turned.toList = left.toList := by
            unfold turnLeft at hturned
            split at hturned
            · exact toList_rotateLeft ih hturned
            · rw [Option.some.inj hturned]
          rw [toList_rotateRight ih hrotated, toList, hleft, toList]
        · rw [← Option.some.inj hnext, toList, toList]

/-! ## Heights -/

/-- The heights of the two sides are at most one apart everywhere, and each
node stores its height, or is a new leaf. -/
def Good : Avl α → Prop
  | nil => True
  | node left _ right height => Good left ∧ Good right ∧
      left.height ≤ right.height + 1 ∧ right.height ≤ left.height + 1 ∧
      (height = max left.height right.height + 1 ∨
        (left = nil ∧ right = nil ∧ height = 0))

/-- What balancing makes of two good sides of these heights. -/
structure Balanced (left right : ℕ) (result : Avl α) : Prop where
  good : Good result
  height_ge : max left right ≤ result.height
  height_le : result.height ≤ max left right + 1

section
variable {left right : Avl α} (value : α)

theorem balance_level {steps : ℕ} (height : ℕ)
    (hleft : left.height ≤ right.height + 1)
    (hright : right.height ≤ left.height + 1) :
    balance (steps + 1) (node left value right height) =
      some (node left value right (max left.height right.height + 1)) := by
  rw [balance, if_neg (by omega), if_neg (by omega)]

variable (hleftGood : Good left) (hrightGood : Good right)
  (hleft : left.height ≤ right.height + 1)
  (hright : right.height ≤ left.height + 1)

include hleftGood hrightGood hleft hright

theorem good_level :
    Good (node left value right (max left.height right.height + 1)) :=
  ⟨hleftGood, hrightGood, hleft, hright, .inl rfl⟩

theorem balanced_level : Balanced left.height right.height
    (node left value right (max left.height right.height + 1)) :=
  ⟨good_level value hleftGood hrightGood hleft hright, Nat.le_succ _,
    Nat.le_refl _⟩

end

/-! ## The other direction -/

def mirror : Avl α → Avl α
  | nil => nil
  | node left value right height =>
    node (mirror right) value (mirror left) height

@[simp]
theorem height_mirror (tree : Avl α) : (mirror tree).height = tree.height := by
  cases tree <;> rfl

@[simp]
theorem mirror_mirror (tree : Avl α) : mirror (mirror tree) = tree := by
  induction tree with
  | nil => rfl
  | node left value right height ihleft ihright =>
    rw [mirror, mirror, ihleft, ihright]

theorem mirror_eq_nil_iff : mirror tree = nil ↔ tree = nil := by
  cases tree <;> simp [mirror]

theorem good_mirror : Good (mirror tree) ↔ Good tree := by
  induction tree with
  | nil => exact Iff.rfl
  | node left value right height ihleft ihright =>
    simp only [mirror, Good, height_mirror, ihleft, ihright,
      mirror_eq_nil_iff, Nat.max_comm right.height]
    constructor
    · rintro ⟨hright, hleft, hrightLe, hleftLe, hheight | ⟨hr, hl, hzero⟩⟩
      · exact ⟨hleft, hright, hleftLe, hrightLe, .inl hheight⟩
      · exact ⟨hleft, hright, hleftLe, hrightLe, .inr ⟨hl, hr, hzero⟩⟩
    · rintro ⟨hleft, hright, hleftLe, hrightLe, hheight | ⟨hl, hr, hzero⟩⟩
      · exact ⟨hright, hleft, hrightLe, hleftLe, .inl hheight⟩
      · exact ⟨hright, hleft, hrightLe, hleftLe, .inr ⟨hr, hl, hzero⟩⟩

def Mirrors (balance : Avl α → Option (Avl α)) : Prop :=
  ∀ tree, balance (mirror tree) = (balance tree).map mirror

theorem leftHeavy_mirror (tree : Avl α) :
    (mirror tree).leftHeavy = tree.rightHeavy := by
  cases tree <;> simp [mirror, leftHeavy, rightHeavy]

theorem rightHeavy_mirror (tree : Avl α) :
    (mirror tree).rightHeavy = tree.leftHeavy := by
  cases tree <;> simp [mirror, leftHeavy, rightHeavy]

section
variable {balance : Avl α → Option (Avl α)} (hmirrors : Mirrors balance)
  (tree : Avl α)

include hmirrors

theorem rotateLeft_mirror :
    rotateLeft balance (mirror tree) = (rotateRight balance tree).map mirror := by
  match tree with
  | nil => rfl
  | node nil value right height => rfl
  | node (node left up middle upHeight) value right height =>
    have hdown := hmirrors (node middle value right height)
    rw [mirror] at hdown
    rw [mirror, mirror, rotateLeft, rotateRight, hdown]
    cases balance (node middle value right height) with
    | none => rfl
    | some down => exact hmirrors (node left up down upHeight)

theorem rotateRight_mirror :
    rotateRight balance (mirror tree) = (rotateLeft balance tree).map mirror := by
  have hleft := rotateLeft_mirror hmirrors (mirror tree)
  rw [mirror_mirror] at hleft
  rw [hleft, Option.map_map]
  simp [Function.comp_def]

theorem turnRight_mirror :
    turnRight balance (mirror tree) = (turnLeft balance tree).map mirror := by
  rw [turnRight, turnLeft, leftHeavy_mirror]
  split
  · exact rotateRight_mirror hmirrors tree
  · rfl

theorem turnLeft_mirror :
    turnLeft balance (mirror tree) = (turnRight balance tree).map mirror := by
  rw [turnRight, turnLeft, rightHeavy_mirror]
  split
  · exact rotateLeft_mirror hmirrors tree
  · rfl

end

theorem balance_mirrors (steps : ℕ) :
    Mirrors (balance steps : Avl α → Option (Avl α)) := by
  induction steps with
  | zero => exact fun _ => rfl
  | succ steps ih =>
    intro tree
    cases tree with
    | nil => rfl
    | node left value right height =>
      rw [mirror, balance, balance, height_mirror, height_mirror]
      by_cases hright : left.height + 1 < right.height
      · simp only [if_pos hright,
          if_neg (show ¬ right.height + 1 < left.height by omega),
          turnLeft_mirror ih]
        cases turnRight (balance steps) right with
        | none => rfl
        | some turned =>
          exact rotateRight_mirror ih (node left value turned height)
      · by_cases hleft : right.height + 1 < left.height
        · simp only [if_neg hright, if_pos hleft, turnRight_mirror ih]
          cases turnLeft (balance steps) left with
          | none => rfl
          | some turned =>
            exact rotateLeft_mirror ih (node turned value right height)
        · simp only [if_neg hright, if_neg hleft, Option.map_some, mirror,
            Nat.max_comm]

/-! ## Balancing succeeds -/

theorem Good.exists_node (hgood : Good tree) (hheight : 0 < tree.height) :
    ∃ left value right, tree = node left value right tree.height ∧
      Good left ∧ Good right ∧ left.height ≤ right.height + 1 ∧
      right.height ≤ left.height + 1 ∧
      tree.height = max left.height right.height + 1 := by
  cases tree with
  | nil => cases hheight
  | node left value right height =>
    obtain ⟨hleft, hright, hleftLe, hrightLe, hsome | ⟨-, -, hzero⟩⟩ := hgood
    · exact ⟨left, value, right, rfl, hleft, hright, hleftLe, hrightLe, hsome⟩
    · rw [height_node, hzero] at hheight
      cases hheight

section
variable {steps : ℕ} {left middle right : Avl α} (value : α)

theorem balance_rightHeavy (height : ℕ)
    (hheavy : left.height + 1 < right.height) :
    balance (steps + 1) (node left value right height) =
      (turnRight (balance steps) right).bind fun turned =>
        rotateLeft (balance steps) (node left value turned height) := by
  rw [balance, if_pos hheavy]
  rfl

theorem balance_leftHeavy (height : ℕ)
    (hheavy : right.height + 1 < left.height) :
    balance (steps + 1) (node left value right height) =
      (turnLeft (balance steps) left).bind fun turned =>
        rotateRight (balance steps) (node turned value right height) := by
  rw [balance, if_neg (by omega), if_pos hheavy]
  rfl

section
variable (balance : Avl α → Option (Avl α)) (value : α) (height : ℕ)

theorem turnRight_lean (hlean : right.height < left.height) :
    turnRight balance (node left value right height) =
      rotateRight balance (node left value right height) :=
  if_pos (decide_eq_true hlean)

theorem turnRight_level (hlevel : left.height ≤ right.height) :
    turnRight balance (node left value right height) =
      some (node left value right height) :=
  if_neg (by simpa [leftHeavy] using hlevel)

theorem turnLeft_lean (hlean : left.height < right.height) :
    turnLeft balance (node left value right height) =
      rotateLeft balance (node left value right height) :=
  if_pos (decide_eq_true hlean)

theorem rotateLeft_eq (up : α) (height upHeight : ℕ) :
    rotateLeft balance
        (node left value (node middle up right upHeight) height) =
      (balance (node left value middle height)).bind fun down =>
        balance (node down up right upHeight) :=
  rfl

theorem rotateRight_eq (up : α) (height upHeight : ℕ) :
    rotateRight balance
        (node (node left up middle upHeight) value right height) =
      (balance (node middle value right height)).bind fun down =>
        balance (node left up down upHeight) :=
  rfl

end

/-- A rotation over a right side that does not lean to the left. -/
theorem rotateLeft_good (up : α) (height upHeight : ℕ)
    (hdown : ∃ down, balance (steps + 1) (node left value middle height) =
      some down ∧ Balanced left.height middle.height down)
    (hright : Good right) (hlow : left.height ≤ middle.height)
    (hlean : middle.height ≤ right.height)
    (hlevel : right.height ≤ middle.height + 1) :
    ∃ result, rotateLeft (balance (steps + 1))
        (node left value (node middle up right upHeight) height) =
          some result ∧
      Good result ∧ right.height + 1 ≤ result.height ∧
      result.height ≤ right.height + 2 := by
  obtain ⟨down, hbalance, hbalanced⟩ := hdown
  have hge := hbalanced.height_ge
  have hle := hbalanced.height_le
  refine ⟨node down up right (max down.height right.height + 1), ?_,
    good_level up hbalanced.good hright (by omega) (by omega), ?_, ?_⟩
  · rw [rotateLeft_eq, hbalance, Option.bind_some,
      balance_level up upHeight (by omega) (by omega)]
  · rw [height_node]
    omega
  · rw [height_node]
    omega

/-- Turning a right side that leans to the left, whose left side does not lean
to the right. -/
theorem turnRight_straight {first second : Avl α} (up value : α)
    (upHeight height : ℕ) (hheavy : right.height < upHeight)
    (hfirst : first.height = right.height)
    (hsecond : second.height ≤ right.height)
    (hlevel : right.height ≤ second.height + 1) :
    turnRight (balance (steps + 1))
        (node (node first up second upHeight) value right height) =
      some (node first up (node second value right (right.height + 1))
        (right.height + 2)) := by
  rw [turnRight_lean _ value height hheavy, rotateRight_eq,
    balance_level value height (by omega) (by omega), Option.bind_some,
    Nat.max_eq_right hsecond,
    balance_level up upHeight (by rw [height_node]; omega)
      (by rw [height_node]; omega), height_node, Nat.max_eq_right (by omega)]

/-- When that left side leans to the right, the turn is undone by balancing. -/
theorem turnRight_undone {first second : Avl α} (up value : α)
    (upHeight height : ℕ) (hheavy : right.height < upHeight)
    (hfirst : first.height + 1 = right.height)
    (hsecond : second.height = right.height) :
    turnRight (balance (steps + 2))
        (node (node first up second upHeight) value right height) =
      some (node (node first up second (right.height + 1)) value right
        (right.height + 2)) := by
  rw [turnRight_lean _ value height hheavy, rotateRight_eq,
    balance_level value height (by omega) (by omega), Option.bind_some,
    hsecond, Nat.max_self,
    balance_rightHeavy up upHeight (by rw [height_node]; omega),
    turnRight_level _ value _ (by omega), Option.bind_some, rotateLeft_eq,
    balance_level up upHeight (by omega) (by omega), Option.bind_some,
    Nat.max_eq_right (by omega), hsecond,
    balance_level value (right.height + 1) (Nat.le_refl _)
      (by rw [height_node]; omega), height_node, Nat.max_eq_left (by omega)]

/-- A side that is two higher and leans inwards, as a single step leaves it. -/
theorem balance_inward {first second : Avl α} (outer inner value : α)
    (outerHeight innerHeight height : ℕ) (hleft : left.height = right.height)
    (hfirst : first.height + 1 = right.height)
    (hsecond : second.height = right.height)
    (hinner : innerHeight = right.height + 1)
    (houter : outerHeight = right.height + 2) :
    balance (steps + 2)
        (node (node left outer (node first inner second innerHeight)
          outerHeight) value right height) =
      some (node (node left outer first (right.height + 1)) inner
        (node second value right (right.height + 1)) (right.height + 2)) := by
  rw [balance_leftHeavy value height (by rw [height_node]; omega),
    turnLeft_lean _ outer _ (by rw [height_node]; omega), rotateLeft_eq,
    balance_level outer outerHeight (by omega) (by omega), Option.bind_some,
    hleft, Nat.max_eq_left (by omega),
    balance_level inner innerHeight (by rw [height_node]; omega)
      (by rw [height_node]; omega), Option.bind_some, rotateRight_eq,
    balance_level value height (by omega) (by omega), Option.bind_some,
    hsecond, Nat.max_self, height_node, Nat.max_eq_left (by omega),
    balance_level inner _ (by rw [height_node, height_node]; omega)
      (by rw [height_node, height_node]; omega), height_node, height_node,
    Nat.max_self]

/-- Two good sides at most `bound` apart are balanced in these steps. -/
def Balances (α : Type) (steps bound : ℕ) : Prop :=
  ∀ {left right : Avl α} (value : α) (height : ℕ), Good left → Good right →
    left.height ≤ right.height + bound → right.height ≤ left.height + bound →
    ∃ result, balance steps (node left value right height) = some result ∧
      Balanced left.height right.height result

/-- One step more apart, to the right. -/
theorem balance_good_right {bound : ℕ} (height : ℕ)
    (hbound : 1 ≤ bound) (hsteps : bound < steps)
    (hless : Balances α steps bound) (hleft : Good left) (hright : Good right)
    (happart : right.height = left.height + bound + 1) :
    ∃ result, balance (steps + 1) (node left value right height) =
      some result ∧ Balanced left.height right.height result := by
  obtain ⟨more, rfl⟩ : ∃ more, steps = more + 2 :=
    ⟨steps - 2, by omega⟩
  obtain ⟨middle, up, outer, hnode, hmiddle, houter, hmiddleLe, houterLe,
    hheight⟩ := hright.exists_node (by omega)
  rw [balance_rightHeavy value height (by omega)]
  -- The result of a rotation over a right side that does not lean inwards.
  have hrotate : ∀ {middle outer : Avl α} (up : α) (upHeight : ℕ),
      Good middle → Good outer → left.height ≤ middle.height →
      middle.height ≤ left.height + bound → middle.height ≤ outer.height →
      outer.height ≤ middle.height + 1 → outer.height + 1 = right.height →
      ∃ result, rotateLeft (balance (more + 2))
          (node left value (node middle up outer upHeight) height) =
            some result ∧ Balanced left.height right.height result := by
    intro middle outer up upHeight hmiddle houter hlow hhigh hlean hlevel hsum
    obtain ⟨result, hresult, hgood, hge, hle⟩ :=
      rotateLeft_good value up height upHeight
        (hless value height hleft hmiddle (by omega) hhigh) houter hlow hlean
        hlevel
    exact ⟨result, hresult, hgood, by omega, by omega⟩
  by_cases hlean : middle.height ≤ outer.height
  · have hturn : turnRight (balance (more + 2)) right =
        some (node middle up outer right.height) := by
      rw [hnode]
      exact turnRight_level _ up _ hlean
    rw [hturn, Option.bind_some]
    exact hrotate up right.height hmiddle houter (by omega) (by omega) hlean
      (by omega) (by omega)
  obtain ⟨first, inner, second, hmiddleNode, hfirst, hsecond, hfirstLe,
    hsecondLe, hmiddleHeight⟩ := hmiddle.exists_node (by omega)
  by_cases hstraight : second.height ≤ first.height
  · have hturn : turnRight (balance (more + 2)) right =
        some (node first inner (node second up outer (outer.height + 1))
          (outer.height + 2)) := by
      rw [hnode, hmiddleNode]
      exact turnRight_straight inner up _ _ (by omega) (by omega) (by omega) (by omega)
    have houterGood : Good (node second up outer (outer.height + 1)) :=
      ⟨hsecond, houter, by omega, by omega, .inl (by omega)⟩
    rw [hturn, Option.bind_some]
    exact hrotate inner _ hfirst houterGood (by omega) (by omega)
      (by rw [height_node]; omega) (by rw [height_node]; omega)
      (by rw [height_node]; omega)
  · have hturn : turnRight (balance (more + 2)) right =
        some (node (node first inner second (outer.height + 1)) up outer
          (outer.height + 2)) := by
      rw [hnode, hmiddleNode]
      exact turnRight_undone inner up _ _ (by omega) (by omega) (by omega)
    have hinnerGood : Good (node first inner second (outer.height + 1)) :=
      ⟨hfirst, hsecond, by omega, by omega, .inl (by omega)⟩
    rw [hturn, Option.bind_some, rotateLeft_eq]
    by_cases hone : bound = 1
    · rw [balance_level value height (by rw [height_node]; omega)
        (by rw [height_node]; omega), Option.bind_some,
        balance_inward value inner up _ _ _ (by omega) (by omega)
          (by omega) rfl (by rw [height_node]; omega)]
      refine ⟨_, rfl, ⟨⟨hleft, hfirst, by omega, by omega, .inl (by omega)⟩,
        ⟨hsecond, houter, by omega, by omega, .inl (by omega)⟩, ?_, ?_, ?_⟩,
        ?_, ?_⟩
      · exact Nat.le_succ _
      · exact Nat.le_succ _
      · exact .inl (by rw [height_node, height_node, Nat.max_self])
      · rw [height_node]
        omega
      · rw [height_node]
        omega
    · obtain ⟨down, hdown, hdownBalanced⟩ := hless value height hleft
        hinnerGood (by rw [height_node]; omega) (by rw [height_node]; omega)
      have hge := hdownBalanced.height_ge
      have hle := hdownBalanced.height_le
      rw [height_node] at hge hle
      rw [hdown, Option.bind_some]
      by_cases hlevel : down.height ≤ outer.height + 1
      · rw [balance_level up _ hlevel (by omega)]
        refine ⟨_, rfl, good_level up hdownBalanced.good houter hlevel
          (by omega), ?_, ?_⟩
        · rw [height_node]
          omega
        · rw [height_node]
          omega
      · obtain ⟨result, hresult, hbalanced⟩ := hless up (outer.height + 2)
          hdownBalanced.good houter (by omega) (by omega)
        have hresultGe := hbalanced.height_ge
        have hresultLe := hbalanced.height_le
        exact ⟨result, hresult, hbalanced.good, by omega, by omega⟩

end

/-- Balancing two good sides takes as many steps as they are apart, and one. -/
theorem balance_good (steps bound : ℕ) (hsteps : bound < steps) :
    Balances α steps bound := by
  induction bound generalizing steps with
  | zero =>
    intro left right value height hleft hright hleftLe hrightLe
    obtain ⟨more, rfl⟩ : ∃ more, steps = more + 1 := ⟨steps - 1, by omega⟩
    exact ⟨_, balance_level value height (by omega) (by omega),
      balanced_level value hleft hright (by omega) (by omega)⟩
  | succ bound ih =>
    intro left right value height hleft hright hleftLe hrightLe
    obtain ⟨more, rfl⟩ : ∃ more, steps = more + 1 := ⟨steps - 1, by omega⟩
    by_cases hlevel : left.height ≤ right.height + 1 ∧
        right.height ≤ left.height + 1
    · exact ⟨_, balance_level value height hlevel.1 hlevel.2,
        balanced_level value hleft hright hlevel.1 hlevel.2⟩
    by_cases hless : left.height ≤ right.height + bound ∧
        right.height ≤ left.height + bound
    · exact ih (more + 1) (by omega) value height hleft hright hless.1
        hless.2
    by_cases hheavy : left.height ≤ right.height
    · exact balance_good_right value height (by omega) (by omega)
        (ih more (by omega)) hleft hright (by omega)
    -- The other direction is the mirrored one.
    have happart : (mirror left).height =
        (mirror right).height + bound + 1 := by
      rw [height_mirror, height_mirror]
      omega
    obtain ⟨result, hresult, hbalanced⟩ :=
      balance_good_right value height (by omega) (by omega)
        (ih more (by omega)) (good_mirror.mpr hright) (good_mirror.mpr hleft)
        happart
    have hmirror := balance_mirrors (more + 1)
      (node (mirror right) value (mirror left) height)
    rw [mirror, mirror_mirror, mirror_mirror, hresult] at hmirror
    have hge := hbalanced.height_ge
    have hle := hbalanced.height_le
    rw [height_mirror, height_mirror] at hge hle
    refine ⟨mirror result, hmirror, good_mirror.mpr hbalanced.good, ?_, ?_⟩
    · rw [height_mirror]
      omega
    · rw [height_mirror]
      omega

/-- Balancing a node with good sides gives a good tree of its values. -/
theorem rebalance_good {left right : Avl α} (value : α) (height : ℕ)
    (hleft : Good left) (hright : Good right) :
    ∃ result, rebalance (node left value right height) = some result ∧
      Good result ∧ result.toList = left.toList ++ value :: right.toList := by
  obtain ⟨result, hresult, hbalanced⟩ :=
    balance_good (left.height + right.height + 2)
      (left.height + right.height) (by omega) value height hleft hright
      (by omega) (by omega)
  exact ⟨result, hresult, hbalanced.good, toList_balance hresult⟩

/-! ## Edits of a list -/

/-- Some piece of a list is replaced. -/
def Edits (old new before after : List α) : Prop :=
  ∃ front back, before = front ++ old ++ back ∧ after = front ++ new ++ back

section
variable {old new before after : List α}

variable (hedits : Edits old new before after)
include hedits

theorem Edits.ahead (back : List α) :
    Edits old new (before ++ back) (after ++ back) := by
  obtain ⟨front, middle, rfl, rfl⟩ := hedits
  exact ⟨front, middle ++ back, by simp, by simp⟩

theorem Edits.behind (front : List α) (value : α) :
    Edits old new (front ++ value :: before) (front ++ value :: after) := by
  obtain ⟨middle, back, rfl, rfl⟩ := hedits
  exact ⟨front ++ value :: middle, back, by simp, by simp⟩

theorem Edits.map {β : Type}
    (f : α → β) : Edits (old.map f) (new.map f) (before.map f)
      (after.map f) := by
  obtain ⟨front, back, rfl, rfl⟩ := hedits
  exact ⟨front.map f, back.map f, by simp, by simp⟩

omit hedits in
theorem Edits.eq (hedits : Edits old old before after) : after = before := by
  obtain ⟨front, back, rfl, rfl⟩ := hedits
  rfl

theorem Edits.perm : (old ++ after).Perm (new ++ before) := by
  obtain ⟨front, back, rfl, rfl⟩ := hedits
  simp only [← List.append_assoc]
  refine List.Perm.append_right back ?_
  rw [List.append_assoc, List.append_assoc]
  refine List.perm_append_comm.trans ?_
  rw [List.append_assoc]
  exact List.perm_append_comm_assoc front new old

omit hedits

theorem Edits.sublist (hedits : Edits old [] before after) :
    after.Sublist before := by
  obtain ⟨front, back, rfl, rfl⟩ := hedits
  simp

end

/-! ## The operations -/

theorem moveRight_good {moved : Avl α} (hmoved : Good moved)
    (hgood : Good tree) :
    ∃ next, moveRight moved tree = some next ∧ Good next ∧
      next.toList = tree.toList ++ moved.toList := by
  induction tree with
  | nil => exact ⟨moved, rfl, hmoved, rfl⟩
  | node left value right height ihleft ihright =>
    obtain ⟨hleft, hright, -⟩ := hgood
    obtain ⟨next, hnext, hnextGood, hlist⟩ := ihright hright
    obtain ⟨result, hresult, hresultGood, hvalues⟩ :=
      rebalance_good value height hleft hnextGood
    refine ⟨result, by rw [moveRight, hnext]; exact hresult, hresultGood, ?_⟩
    rw [hvalues, toList, hlist, List.append_assoc, List.cons_append]

section
variable (compare : α → α → Ordering) (value : α)

/-- A new value is one more. -/
theorem insert_good (hgood : Good tree) :
    ∃ next, insert compare value tree = some next ∧ Good next ∧
      Edits [] [value] tree.toList next.toList := by
  induction tree with
  | nil =>
    exact ⟨node nil value nil 0, rfl, ⟨trivial, trivial, Nat.zero_le _,
      Nat.zero_le _, .inr ⟨rfl, rfl, rfl⟩⟩, [], [], rfl, rfl⟩
  | node left other right height ihleft ihright =>
    obtain ⟨hleft, hright, -⟩ := hgood
    rw [insert]
    split
    · obtain ⟨next, hnext, hnextGood, hedits⟩ := ihleft hleft
      obtain ⟨result, hresult, hresultGood, hvalues⟩ :=
        rebalance_good other height hnextGood hright
      refine ⟨result, by rw [hnext]; exact hresult, hresultGood, ?_⟩
      rw [hvalues, toList]
      exact hedits.ahead _
    · obtain ⟨next, hnext, hnextGood, hedits⟩ := ihright hright
      obtain ⟨result, hresult, hresultGood, hvalues⟩ :=
        rebalance_good other height hleft hnextGood
      refine ⟨result, by rw [hnext]; exact hresult, hresultGood, ?_⟩
      rw [hvalues, toList]
      exact hedits.behind _ other

/-- A removal takes the value away that `find` finds, and no other one. -/
theorem remove_good (hgood : Good tree) :
    ∃ next, remove compare value tree = some next ∧ Good next ∧
      Edits (find compare value tree).toList [] tree.toList next.toList := by
  induction tree with
  | nil => exact ⟨nil, rfl, trivial, [], [], rfl, rfl⟩
  | node left other right height ihleft ihright =>
    obtain ⟨hleft, hright, -⟩ := hgood
    rw [remove, find]
    cases compare value other with
    | eq =>
      obtain ⟨next, hnext, hnextGood, hlist⟩ := moveRight_good hright hleft
      refine ⟨next, hnext, hnextGood, left.toList, right.toList, ?_, ?_⟩
      · rw [toList, Option.toList_some, List.append_assoc]
        rfl
      · rw [hlist, List.append_nil]
    | lt =>
      obtain ⟨next, hnext, hnextGood, hedits⟩ := ihleft hleft
      obtain ⟨result, hresult, hresultGood, hvalues⟩ :=
        rebalance_good other height hnextGood hright
      refine ⟨result, by rw [hnext]; exact hresult, hresultGood, ?_⟩
      rw [hvalues, toList]
      exact hedits.ahead _
    | gt =>
      obtain ⟨next, hnext, hnextGood, hedits⟩ := ihright hright
      obtain ⟨result, hresult, hresultGood, hvalues⟩ :=
        rebalance_good other height hleft hnextGood
      refine ⟨result, by rw [hnext]; exact hresult, hresultGood, ?_⟩
      rw [hvalues, toList]
      exact hedits.behind _ other

theorem find_some {found : α} (hfind : find compare value tree = some found) :
    found ∈ tree.toList ∧ compare value found = .eq := by
  induction tree with
  | nil => cases hfind
  | node left other right height ihleft ihright =>
    rw [find] at hfind
    rw [toList]
    cases hcompare : compare value other with
    | eq =>
      rw [hcompare] at hfind
      obtain rfl := Option.some.inj hfind
      exact ⟨by simp, hcompare⟩
    | lt =>
      rw [hcompare] at hfind
      obtain ⟨hmem, heq⟩ := ihleft hfind
      exact ⟨by simp [hmem], heq⟩
    | gt =>
      rw [hcompare] at hfind
      obtain ⟨hmem, heq⟩ := ihright hfind
      exact ⟨by simp [hmem], heq⟩

theorem update_good (f : α → α) (hgood : Good tree) :
    Good (update compare value f tree) ∧
      (update compare value f tree).height = tree.height ∧
      (update compare value f tree = nil ↔ tree = nil) := by
  induction tree with
  | nil => exact ⟨trivial, rfl, Iff.rfl⟩
  | node left other right height ihleft ihright =>
    obtain ⟨hleft, hright, hlevels⟩ := hgood
    rw [update]
    cases compare value other with
    | eq => exact ⟨⟨hleft, hright, hlevels⟩, rfl, by simp⟩
    | lt =>
      obtain ⟨hnext, hheight, hnil⟩ := ihleft hleft
      refine ⟨⟨hnext, hright, ?_⟩, rfl, by simp⟩
      rw [hheight, hnil]
      exact hlevels
    | gt =>
      obtain ⟨hnext, hheight, hnil⟩ := ihright hright
      refine ⟨⟨hleft, hnext, ?_⟩, rfl, by simp⟩
      rw [hheight, hnil]
      exact hlevels

theorem toList_update (f : α → α) (tree : Avl α) :
    Edits (find compare value tree).toList
      ((find compare value tree).map f).toList tree.toList
      (update compare value f tree).toList := by
  induction tree with
  | nil => exact ⟨[], [], rfl, rfl⟩
  | node left other right height ihleft ihright =>
    rw [find, update]
    cases compare value other with
    | eq =>
      exact ⟨left.toList, right.toList, by simp [toList], by simp [toList]⟩
    | lt => exact ihleft.ahead _
    | gt => exact ihright.behind _ other

end

/-! ## The order -/

/-- The values ascend from left to right. -/
def Ordered (compare : α → α → Ordering) (tree : Avl α) : Prop :=
  tree.toList.Pairwise fun left right => compare left right = .lt

section
variable {compare : α → α → Ordering} [Std.TransCmp compare] {value : α}

theorem ordered_node {left right : Avl α} {height : ℕ} :
    Ordered compare (node left value right height) ↔
      Ordered compare left ∧ Ordered compare right ∧
      (∀ other ∈ left.toList, compare other value = .lt) ∧
      ∀ other ∈ right.toList, compare value other = .lt := by
  rw [Ordered, toList, List.pairwise_append, List.pairwise_cons]
  constructor
  · rintro ⟨hleft, ⟨habove, hright⟩, hacross⟩
    exact ⟨hleft, hright, fun other hother =>
      hacross other hother value List.mem_cons_self, habove⟩
  rintro ⟨hleft, hright, hbelow, habove⟩
  refine ⟨hleft, ⟨habove, hright⟩, fun lower hlower upper hupper => ?_⟩
  rcases List.mem_cons.mp hupper with rfl | hupper
  · exact hbelow lower hlower
  · exact Std.TransCmp.lt_trans (hbelow lower hlower) (habove upper hupper)

/-- In an ordered tree whatever compares equal is found. -/
theorem find_eq_some_iff (hordered : Ordered compare tree) {found : α} :
    find compare value tree = some found ↔
      found ∈ tree.toList ∧ compare value found = .eq := by
  refine ⟨find_some compare value, ?_⟩
  rintro ⟨hmem, hequal⟩
  induction tree with
  | nil => cases hmem
  | node left other right height ihleft ihright =>
    obtain ⟨hleft, hright, hbelow, habove⟩ := ordered_node.mp hordered
    rw [find]
    rcases List.mem_append.mp hmem with hmem | hmem
    · rw [Std.TransCmp.lt_of_eq_of_lt hequal (hbelow found hmem)]
      exact ihleft hleft hmem
    rcases List.mem_cons.mp hmem with rfl | hmem
    · rw [hequal]
    have habove := habove found hmem
    rw [Std.OrientedCmp.eq_comm] at hequal
    rw [Std.OrientedCmp.gt_iff_lt.mpr
      (Std.TransCmp.lt_of_lt_of_eq habove hequal)]
    exact ihright hright hmem

theorem insert_ordered {next : Avl α} (hgood : Good tree)
    (hordered : Ordered compare tree) (hnew : find compare value tree = none)
    (hnext : insert compare value tree = some next) : Ordered compare next := by
  induction tree generalizing next with
  | nil =>
    obtain rfl := Option.some.inj hnext
    exact List.pairwise_singleton _ _
  | node left other right height ihleft ihright =>
    obtain ⟨hleftGood, hrightGood, -⟩ := hgood
    obtain ⟨hleft, hright, hbelow, habove⟩ := ordered_node.mp hordered
    rw [insert] at hnext
    rw [find] at hnew
    cases hcompare : compare value other with
    | eq =>
      rw [hcompare] at hnew
      cases hnew
    | lt =>
      rw [hcompare] at hnew hnext
      obtain ⟨grown, hgrown, hgrownGood, hedits⟩ :=
        insert_good compare value hleftGood
      obtain ⟨result, hresult, -, hvalues⟩ :=
        rebalance_good other height hgrownGood hrightGood
      rw [hgrown] at hnext
      obtain rfl := Option.some.inj (hresult.symm.trans hnext)
      rw [Ordered, hvalues]
      change Ordered compare (node grown other right height)
      refine ordered_node.mpr ⟨ihleft hleftGood hleft hnew hgrown, hright,
        fun lower hlower => ?_, habove⟩
      rcases List.mem_cons.mp (hedits.perm.mem_iff.mp hlower) with rfl | hold
      · exact hcompare
      · exact hbelow lower hold
    | gt =>
      rw [hcompare] at hnew hnext
      obtain ⟨grown, hgrown, hgrownGood, hedits⟩ :=
        insert_good compare value hrightGood
      obtain ⟨result, hresult, -, hvalues⟩ :=
        rebalance_good other height hleftGood hgrownGood
      rw [hgrown] at hnext
      obtain rfl := Option.some.inj (hresult.symm.trans hnext)
      rw [Ordered, hvalues]
      change Ordered compare (node left other grown height)
      refine ordered_node.mpr ⟨hleft, ihright hrightGood hright hnew hgrown,
        hbelow, fun upper hupper => ?_⟩
      rcases List.mem_cons.mp (hedits.perm.mem_iff.mp hupper) with rfl | hold
      · exact Std.OrientedCmp.gt_iff_lt.mp hcompare
      · exact habove upper hold

end

theorem toList_map (f : α → α) (tree : Avl α) :
    (tree.map f).toList = tree.toList.map f := by
  induction tree with
  | nil => rfl
  | node left value right height ihleft ihright =>
    rw [Avl.map, toList, ihleft, ihright, toList, List.map_append,
      List.map_cons]

theorem map_good (f : α → α) (hgood : Good tree) :
    Good (tree.map f) ∧ (tree.map f).height = tree.height ∧
      (tree.map f = nil ↔ tree = nil) := by
  induction tree with
  | nil => exact ⟨trivial, rfl, Iff.rfl⟩
  | node left value right height ihleft ihright =>
    obtain ⟨hleft, hright, hlevels⟩ := hgood
    obtain ⟨hleftGood, hleftHeight, hleftNil⟩ := ihleft hleft
    obtain ⟨hrightGood, hrightHeight, hrightNil⟩ := ihright hright
    refine ⟨⟨hleftGood, hrightGood, ?_⟩, rfl, by simp [Avl.map]⟩
    rw [hleftHeight, hrightHeight, hleftNil, hrightNil]
    exact hlevels

end Tomato64.AvlTree
