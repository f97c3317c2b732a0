import Tomato64.Core.Scan

/-!
# Numbers of a script

A page script keeps its counters in floating-point numbers, reads them from
text and writes them back.  An engine is given by the operations that a counter
needs and by what the language fixes about them: whole numbers up to `2 ^ 53`
are exact, compare and print as such, and their decimal text reads back.
-/

namespace Tomato64.Number

open Text Scan

/-- Whole numbers up to here have exact successors below it. -/
def exactBound : ℕ := 2 ^ 53

structure Engine where
  Value : Type
  ofNat : ℕ → Value
  /-- `text * 1` -/
  ofText : Bytes → Value
  /-- `'' + value` -/
  text : Value → Bytes
  succ : Value → Value
  ge : Value → Value → Bool
  truthy : Value → Bool
  isNaN : Value → Bool
  /-- `text.trim()` -/
  trim : Bytes → Bytes
  ofText_nil : ofText [] = ofNat 0
  ofText_decimal : ∀ number ≤ exactBound, ofText (decimal number) = ofNat number
  text_ofNat : ∀ number ≤ exactBound, text (ofNat number) = decimal number
  succ_ofNat : ∀ number < exactBound, succ (ofNat number) = ofNat (number + 1)
  ge_ofNat : ∀ left ≤ exactBound, ∀ right ≤ exactBound,
    ge (ofNat left) (ofNat right) = decide (right ≤ left)
  truthy_ofNat : ∀ number ≤ exactBound,
    truthy (ofNat number) = decide (number ≠ 0)
  isNaN_ofNat : ∀ number ≤ exactBound, isNaN (ofNat number) = false

namespace Engine

variable {engine : Engine}

theorem ofNat_inj {left right : ℕ} (hleft : left ≤ exactBound)
    (hright : right ≤ exactBound)
    (heq : engine.ofNat left = engine.ofNat right) : left = right := by
  have hforward : decide (right ≤ left) = true := by
    rw [← engine.ge_ofNat left hleft right hright, heq,
      engine.ge_ofNat right hright right hright, decide_eq_true le_rfl]
  have hback : decide (left ≤ right) = true := by
    rw [← engine.ge_ofNat right hright left hleft, heq,
      engine.ge_ofNat right hright right hright, decide_eq_true le_rfl]
  exact le_antisymm (of_decide_eq_true hback) (of_decide_eq_true hforward)

/-- The text reads as no number at all, or as a whole number below `bound`. -/
def ReadsBelow (engine : Engine) (text : Bytes) (bound : ℕ) : Prop :=
  engine.isNaN (engine.ofText text) = true ∨
    ∃ number < bound, engine.ofText text = engine.ofNat number

theorem ReadsBelow.mono {text : Bytes} {low high : ℕ}
    (hreads : engine.ReadsBelow text low) (hle : low ≤ high) :
    engine.ReadsBelow text high := by
  rcases hreads with hnan | ⟨number, hnumber, heq⟩
  · exact .inl hnan
  · exact .inr ⟨number, by omega, heq⟩

theorem ReadsBelow.ne_decimal {text : Bytes} {bound number : ℕ}
    (hreads : engine.ReadsBelow text bound) (hbound : bound ≤ number)
    (hnumber : number ≤ exactBound) : text ≠ decimal number := by
  rintro rfl
  rw [ReadsBelow, engine.ofText_decimal number hnumber,
    engine.isNaN_ofNat number hnumber] at hreads
  obtain ⟨smaller, hsmaller, heq⟩ := hreads.resolve_left Bool.false_ne_true
  have hsame := ofNat_inj hnumber (by omega) heq
  omega

/-- The engine whose numbers are the natural numbers, with one value for
everything else. -/
def natural : Engine where
  Value := Option ℕ
  ofNat := some
  ofText text := if text.all isDigit then some (valueOf 10 text) else none
  text value := (value.map decimal).getD (bytes "NaN")
  succ value := value.map (· + 1)
  ge left right := match left, right with
    | some left, some right => decide (right ≤ left)
    | _, _ => false
  truthy value := value.any (· ≠ 0)
  isNaN value := value.isNone
  trim text := ((text.dropWhile isSpace).reverse.dropWhile isSpace).reverse
  ofText_nil := rfl
  ofText_decimal number _ := by
    rw [if_pos, valueOf_decimal]
    exact List.all_eq_true.2 (isDigit_of_mem_decimal number)
  text_ofNat _ _ := rfl
  succ_ofNat _ _ := rfl
  ge_ofNat _ _ _ _ := rfl
  truthy_ofNat _ _ := rfl
  isNaN_ofNat _ _ := rfl

end Engine

end Tomato64.Number
