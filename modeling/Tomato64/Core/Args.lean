import Tomato64.Core.Text

/-!
# Splitting a line into arguments

`iptables-restore` splits a line of its input at blanks.  Double quotes keep
blanks together, a backslash inside quotes stands for the character behind it,
and a closing quote ends the argument.
-/

namespace Tomato64.Args

open List Text

inductive Quoting
  | outside
  | inside
  | escaped
deriving DecidableEq, Repr

/-- An argument that was begun ends here. -/
def finish (param : Bytes) : List Bytes :=
  if param = [] then [] else [param]

/-- The arguments of the rest of a line, `param` being the beginning of the
first one. -/
def splitArgs : Quoting → Bytes → Bytes → List Bytes
  | _, param, [] => finish param
  | .escaped, param, char :: text => splitArgs .inside (param ++ [char]) text
  | .inside, param, char :: text =>
    if char = 92 then splitArgs .escaped param text
    else if char = 34 then param :: splitArgs .outside [] text
    else splitArgs .inside (param ++ [char]) text
  | .outside, param, char :: text =>
    if char = 34 then splitArgs .inside param text
    else if char = 32 ∨ char = 9 ∨ char = 10 then
      finish param ++ splitArgs .outside [] text
    else splitArgs .outside (param ++ [char]) text

/-- The arguments of a text, provided that it is part of one line. -/
def lineArgs (text : Bytes) : Option (List Bytes) :=
  if 10 ∈ text then none else some (splitArgs .outside [] text)

/-- The text has no character that means something inside quotes. -/
def Quotable (text : Bytes) : Prop :=
  34 ∉ text ∧ 92 ∉ text

instance (text : Bytes) : Decidable (Quotable text) :=
  inferInstanceAs (Decidable (_ ∧ _))

theorem quotable_cons {char : Byte} {text : Bytes} :
    Quotable (char :: text) ↔ char ≠ 34 ∧ char ≠ 92 ∧ Quotable text := by
  simp only [Quotable, mem_cons, not_or, ne_comm]
  tauto

/-- A word without quotes and blanks. -/
def IsWord (word : Bytes) : Prop :=
  word ≠ [] ∧ ∀ char ∈ word, char ≠ 34 ∧ char ≠ 32 ∧ char ≠ 9 ∧ char ≠ 10

instance (word : Bytes) : Decidable (IsWord word) :=
  inferInstanceAs (Decidable (_ ∧ _))

theorem splitArgs_outside_append {word : Bytes}
    (hword : ∀ char ∈ word, char ≠ 34 ∧ char ≠ 32 ∧ char ≠ 9 ∧ char ≠ 10)
    (param text : Bytes) :
    splitArgs .outside param (word ++ text) =
      splitArgs .outside (param ++ word) text := by
  induction word generalizing param with
  | nil => simp
  | cons char word ih =>
    rw [forall_mem_cons] at hword
    obtain ⟨hquote, hblank⟩ := hword.1
    rw [cons_append, splitArgs, if_neg hquote,
      if_neg (by simpa using hblank), ih hword.2]
    simp

/-- A word and the blank behind it are one argument. -/
theorem splitArgs_word {word : Bytes} (hword : IsWord word) (text : Bytes) :
    splitArgs .outside [] (word ++ 32 :: text) =
      word :: splitArgs .outside [] text := by
  rw [splitArgs_outside_append hword.2, nil_append, splitArgs,
    if_neg (by decide), if_pos (.inl rfl), finish, if_neg hword.1]
  rfl

theorem splitArgs_blank (text : Bytes) :
    splitArgs .outside [] (32 :: text) = splitArgs .outside [] text := by
  rw [splitArgs, if_neg (by decide), if_pos (.inl rfl)]
  rfl

theorem splitArgs_quote (param text : Bytes) :
    splitArgs .outside param (34 :: text) = splitArgs .inside param text := by
  rw [splitArgs, if_pos rfl]

theorem splitArgs_inside {value : Bytes} (hvalue : Quotable value)
    (param text : Bytes) :
    splitArgs .inside param (value ++ 34 :: text) =
      (param ++ value) :: splitArgs .outside [] text := by
  induction value generalizing param with
  | nil => simp [splitArgs]
  | cons char value ih =>
    obtain ⟨hquote, hslash, hvalue⟩ := quotable_cons.1 hvalue
    rw [cons_append, splitArgs, if_neg hslash, if_neg hquote, ih hvalue]
    simp

/-! ## Values that are not what was written -/

/-- A quoted text is read as at most as many characters. -/
theorem length_head_splitArgs {value param arg : Bytes} :
    ((splitArgs .inside param (value ++ [34])).head? = some arg →
      arg.length ≤ param.length + value.length) ∧
    ((splitArgs .escaped param (value ++ [34])).head? = some arg →
      arg.length ≤ param.length + value.length + 1) := by
  induction value generalizing param with
  | nil =>
    constructor
    · intro harg
      cases harg
      exact Nat.le_refl _
    intro harg
    have hfinish : finish (param ++ [34]) = [param ++ [34]] :=
      if_neg (by simp)
    rw [nil_append, splitArgs, splitArgs, hfinish, head?_cons,
      Option.some.injEq] at harg
    simp [← harg]
  | cons char value ih =>
    constructor
    · rw [cons_append, splitArgs, length_cons]
      split
      · intro harg
        have hlength := ih.2 harg
        omega
      split
      · intro harg
        cases harg
        omega
      · intro harg
        have hlength := ih.1 harg
        rw [length_append, length_singleton] at hlength
        omega
    · rw [cons_append, splitArgs, length_cons]
      intro harg
      have hlength := ih.1 harg
      rw [length_append, length_singleton] at hlength
      omega

/-- A text with a quote or a backslash between quotes is not read as that
text. -/
theorem head_splitArgs_ne {value : Bytes} (hvalue : ¬ Quotable value)
    (param : Bytes) :
    (splitArgs .inside param (value ++ [34])).head? ≠
      some (param ++ value) := by
  induction value generalizing param with
  | nil => exact absurd (by decide) hvalue
  | cons char value ih =>
    rw [cons_append, splitArgs]
    split
    · next hslash =>
      -- The backslash itself is not kept.
      intro harg
      cases value with
      | nil =>
        have hfinish : finish (param ++ [34]) = [param ++ [34]] :=
          if_neg (by simp)
        rw [nil_append, splitArgs, splitArgs, hfinish, head?_cons,
          Option.some.injEq, append_cancel_left_eq] at harg
        rw [hslash] at harg
        revert harg
        decide
      | cons next value =>
        rw [cons_append, splitArgs] at harg
        have hlength := length_head_splitArgs.1 harg
        simp only [length_append, length_cons, length_nil] at hlength
        omega
    · next hslash =>
      split
      · intro harg
        rw [head?_cons, Option.some.injEq] at harg
        have hlength := congrArg List.length harg
        simp at hlength
      · next hquote =>
        have hrest : ¬ Quotable value := fun hrest =>
          hvalue (quotable_cons.2 ⟨hquote, hslash, hrest⟩)
        simpa using ih hrest (param ++ [char])

end Tomato64.Args
