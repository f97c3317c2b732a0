import Mathlib.Data.List.Forall2

/-!
# Cutting a list at its first separator

C code takes byte buffers apart with `strlen`, `strchr` and `strsep`.  All
three look for the first occurrence of one value, so they share one function:
the part before that occurrence and the part behind it.  A list without the
value has no cut, which models a reader that would run off the buffer.
-/

namespace Tomato64.Split

open List

variable {α : Type*}

section First

variable [DecidableEq α]

/-- The elements before and behind the first `sep`. -/
def splitFirst (sep : α) : List α → Option (List α × List α)
  | [] => none
  | head :: tail =>
    if head = sep then some ([], tail)
    else (splitFirst sep tail).map fun cut => (head :: cut.1, cut.2)

theorem splitFirst_append {sep : α} {front : List α} (hfront : sep ∉ front)
    (back : List α) :
    splitFirst sep (front ++ sep :: back) = some (front, back) := by
  induction front with
  | nil => simp [splitFirst]
  | cons head tail ih =>
    rw [mem_cons, not_or] at hfront
    simp [splitFirst, Ne.symm hfront.1, ih hfront.2]

theorem splitFirst_eq_none_iff {sep : α} {values : List α} :
    splitFirst sep values = none ↔ sep ∉ values := by
  induction values with
  | nil => simp [splitFirst]
  | cons head tail ih =>
    by_cases hhead : head = sep
    · simp [splitFirst, hhead]
    · simp [splitFirst, hhead, ih, Ne.symm hhead]

/-- A cut determines the list: the separator stands between the two parts and
does not occur in the first one. -/
theorem splitFirst_eq_some_iff {sep : α} {values front back : List α} :
    splitFirst sep values = some (front, back) ↔
      values = front ++ sep :: back ∧ sep ∉ front := by
  constructor
  swap
  · rintro ⟨rfl, hfront⟩
    exact splitFirst_append hfront back
  induction values generalizing front with
  | nil => simp [splitFirst]
  | cons head tail ih =>
    intro hcut
    by_cases hhead : head = sep
    · subst head
      simp only [splitFirst, if_true, Option.some.injEq,
        Prod.mk.injEq] at hcut
      obtain ⟨rfl, rfl⟩ := hcut
      simp
    · simp only [splitFirst, hhead, if_false, Option.map_eq_some_iff,
        Prod.mk.injEq, Prod.exists] at hcut
      obtain ⟨front', back', hcut', rfl, rfl⟩ := hcut
      obtain ⟨rfl, hfront⟩ := ih hcut'
      simp [hfront, Ne.symm hhead]

theorem length_of_splitFirst {sep : α} {values front back : List α}
    (hcut : splitFirst sep values = some (front, back)) :
    values.length = front.length + 1 + back.length := by
  obtain ⟨rfl, -⟩ := splitFirst_eq_some_iff.1 hcut
  simp only [length_append, length_cons]
  omega

end First

theorem exists_append_of_forall₂ {β : Type*} {R : α → β → Prop}
    {front back : List α} {related : List β}
    (hrelated : Forall₂ R (front ++ back) related) :
    ∃ left right, Forall₂ R front left ∧ Forall₂ R back right ∧
      related = left ++ right := by
  induction front generalizing related with
  | nil => exact ⟨[], related, .nil, hrelated, rfl⟩
  | cons head tail ih =>
    cases hrelated with
    | cons hhead htail =>
      obtain ⟨left, right, hleft, hright, rfl⟩ := ih htail
      exact ⟨_ :: left, right, .cons hhead hleft, hright, rfl⟩

theorem exists_mem_of_forall₂ {β : Type*} {R : α → β → Prop} {values : List α}
    {related : List β} {value : α} (hrelated : Forall₂ R values related)
    (hvalue : value ∈ values) : ∃ other ∈ related, R value other := by
  induction hrelated with
  | nil => cases hvalue
  | cons hhead _ ih =>
    rcases mem_cons.1 hvalue with rfl | hvalue
    · exact ⟨_, mem_cons_self, hhead⟩
    · obtain ⟨other, hother, hR⟩ := ih hvalue
      exact ⟨other, mem_cons_of_mem _ hother, hR⟩

theorem exists_first {p : α → Prop} [DecidablePred p] {values : List α}
    (hvalues : ∃ value ∈ values, p value) :
    ∃ front value back, values = front ++ value :: back ∧ p value ∧
      ∀ other ∈ front, ¬ p other := by
  have hsome : (values.find? fun value => decide (p value)).isSome := by
    simpa [find?_isSome] using hvalues
  obtain ⟨value, hfind⟩ := Option.isSome_iff_exists.1 hsome
  obtain ⟨hvalue, front, back, hsplit, hfront⟩ :=
    find?_eq_some_iff_append.1 hfind
  exact ⟨front, value, back, hsplit, by simpa using hvalue,
    by simpa using hfront⟩

theorem findIdx?_congr {p q : α → Bool} {values : List α}
    (hsame : ∀ value ∈ values, p value = q value) :
    values.findIdx? p = values.findIdx? q := by
  induction values with
  | nil => rfl
  | cons head tail ih =>
    rw [forall_mem_cons] at hsame
    rw [findIdx?_cons, findIdx?_cons, hsame.1, ih hsame.2]

/-! ## Joining -/

section Join

variable {sep : α} {parts : List (List α)} {last : List α}

/-- Every part but the last is followed by the separator. -/
theorem intercalate_append_singleton :
    [sep].intercalate (parts ++ [last]) =
      (parts.flatMap fun part => part ++ [sep]) ++ last := by
  induction parts with
  | nil => simp
  | cons part parts ih =>
    have hnonempty : parts ++ [last] ≠ [] := by simp
    obtain ⟨head, tail, hlist⟩ := exists_cons_of_ne_nil hnonempty
    rw [cons_append, hlist, intercalate_cons_cons, ← hlist, ih]
    simp

/-- Every part but the first stands behind a separator. -/
theorem intercalate_cons (first : List α) :
    [sep].intercalate (first :: parts) =
      first ++ parts.flatMap fun part => sep :: part := by
  induction parts generalizing first with
  | nil => simp
  | cons second parts ih =>
    rw [intercalate_cons_cons, flatMap_cons, ih]
    simp

theorem mem_intercalate {value : α} :
    value ∈ [sep].intercalate parts ↔
      (∃ part ∈ parts, value ∈ part) ∨ (value = sep ∧ 1 < parts.length) := by
  induction parts with
  | nil => simp
  | cons first parts ih =>
    cases parts with
    | nil => simp
    | cons second parts =>
      rw [intercalate_cons_cons, mem_append, mem_append, mem_singleton, ih]
      have hlength : 1 < parts.length + 1 + 1 := by omega
      grind

/-- Parts without the separator leave one for each but the last. -/
theorem count_intercalate [DecidableEq α]
    (hparts : ∀ part ∈ parts ++ [last], sep ∉ part) :
    ([sep].intercalate (parts ++ [last])).count sep = parts.length := by
  rw [intercalate_append_singleton, count_append,
    count_eq_zero.2 (hparts last (by simp)), Nat.add_zero]
  induction parts with
  | nil => rfl
  | cons part parts ih =>
    have hpart : part.count sep = 0 := count_eq_zero.2 (hparts part (by simp))
    have hrest : ∀ other ∈ parts ++ [last], sep ∉ other :=
      fun other hother => hparts other (by simp_all)
    rw [flatMap_cons, count_append, count_append, hpart,
      ih hrest, count_singleton_self, length_cons]
    omega

/-- The last part stands behind the last separator. -/
theorem exists_intercalate_eq (sep : α) (last : List α) (hparts : parts ≠ []) :
    ∃ front, [sep].intercalate (parts ++ [last]) = front ++ sep :: last := by
  obtain ⟨init, part, rfl⟩ : ∃ init part, parts = init ++ [part] :=
    ⟨_, _, (dropLast_append_getLast hparts).symm⟩
  refine ⟨(init.flatMap fun other => other ++ [sep]) ++ part, ?_⟩
  rw [intercalate_append_singleton]
  simp

theorem length_le_intercalate (sep : α) {part : List α} (hpart : part ∈ parts) :
    part.length ≤ ([sep].intercalate parts).length := by
  induction parts with
  | nil => cases hpart
  | cons first parts ih =>
    cases parts with
    | nil =>
      have hsame : [sep].intercalate [first] = part := by
        rw [intercalate_singleton, mem_singleton.1 hpart]
      exact Nat.le_of_eq (congrArg List.length hsame.symm)
    | cons second parts =>
      rw [intercalate_cons_cons, length_append, length_append]
      rcases mem_cons.1 hpart with rfl | hpart
      · omega
      · have hlength := ih hpart
        omega

/-- Parts that are not empty take at least one place each. -/
theorem count_le_length_intercalate (sep : α)
    (hparts : ∀ part ∈ parts, part ≠ []) :
    parts.length ≤ ([sep].intercalate parts).length := by
  induction parts with
  | nil => simp
  | cons first parts ih =>
    rw [forall_mem_cons] at hparts
    have hfirst := length_pos_of_ne_nil hparts.1
    cases parts with
    | nil => simpa using Nat.succ_le_of_lt hfirst
    | cons second parts =>
      have hlength := ih hparts.2
      rw [intercalate_cons_cons, length_append, length_append, length_cons]
      omega

end Join

/-! ## Words -/

section Words

variable [DecidableEq α]

/-- The words behind an unfinished one.  Separators in a row count as one. -/
def wordsFrom (sep : α) (current : List α) : List α → List (List α)
  | [] => if current = [] then [] else [current]
  | head :: tail =>
    if head = sep then
      (if current = [] then [] else [current]) ++ wordsFrom sep [] tail
    else wordsFrom sep (current ++ [head]) tail

/-- The words that `strtok` finds one after the other. -/
def words (sep : α) (text : List α) : List (List α) :=
  wordsFrom sep [] text

theorem exists_wordsFrom_eq_cons (sep : α) {current : List α}
    (hcurrent : current ≠ []) (text : List α) :
    ∃ word others, wordsFrom sep current text = word :: others ∧
      current <+: word := by
  induction text generalizing current with
  | nil => exact ⟨current, [], if_neg hcurrent, prefix_rfl⟩
  | cons head tail ih =>
    rw [wordsFrom, if_neg hcurrent]
    split
    · exact ⟨current, _, rfl, prefix_rfl⟩
    · obtain ⟨word, others, hwords, hleads⟩ :=
        ih (by simp : current ++ [head] ≠ [])
      exact ⟨word, others, hwords, (prefix_append _ _).trans hleads⟩

/-- The words of the front of a text are words of the text, but the last one
may be cut short. -/
theorem prefix_of_mem_zip_wordsFrom (sep : α) (current front back : List α) :
    ∀ pair ∈ (wordsFrom sep current front).zip
      (wordsFrom sep current (front ++ back)), pair.1 <+: pair.2 := by
  induction front generalizing current with
  | nil =>
    by_cases hcurrent : current = []
    · simp [wordsFrom, hcurrent]
    · obtain ⟨word, others, hwords, hleads⟩ :=
        exists_wordsFrom_eq_cons sep hcurrent back
      rw [nil_append, hwords, wordsFrom, if_neg hcurrent]
      simpa using hleads
  | cons head front ih =>
    rw [cons_append, wordsFrom, wordsFrom]
    split
    · by_cases hcurrent : current = []
      · simpa [hcurrent] using ih []
      · rw [if_neg hcurrent, singleton_append, singleton_append,
          zip_cons_cons, forall_mem_cons]
        exact ⟨prefix_rfl, ih []⟩
    · exact ih _

variable {sep : α} {part : List α}

theorem wordsFrom_append (hpart : sep ∉ part) (current rest : List α) :
    wordsFrom sep current (part ++ rest) =
      wordsFrom sep (current ++ part) rest := by
  induction part generalizing current with
  | nil => simp
  | cons head part ih =>
    rw [mem_cons, not_or] at hpart
    rw [cons_append, wordsFrom, if_neg (Ne.symm hpart.1), ih hpart.2,
      append_assoc, singleton_append]

theorem words_of_not_mem (hne : part ≠ [])
    (hpart : sep ∉ part) : words sep part = [part] := by
  have happend := wordsFrom_append hpart [] []
  rw [append_nil, nil_append] at happend
  rw [words, happend, wordsFrom, if_neg hne]

/-- A separator ends a word. -/
theorem words_append_cons (hne : part ≠ [])
    (hpart : sep ∉ part) (rest : List α) :
    words sep (part ++ sep :: rest) = part :: words sep rest := by
  rw [words, wordsFrom_append hpart, nil_append, wordsFrom, if_pos rfl,
    if_neg hne, singleton_append, words]

theorem wordsFrom_append_sep (sep : α) (current front back : List α) :
    wordsFrom sep current (front ++ sep :: back) =
      wordsFrom sep current front ++ words sep back := by
  induction front generalizing current with
  | nil =>
    simp only [nil_append, wordsFrom, if_true]
    rfl
  | cons head front ih =>
    simp only [cons_append, wordsFrom]
    split_ifs
    · rw [ih, append_assoc]
    · rw [ih, append_assoc]
    · exact ih _

/-- A separator parts the words of a text. -/
theorem words_append_sep (sep : α) (front back : List α) :
    words sep (front ++ sep :: back) = words sep front ++ words sep back :=
  wordsFrom_append_sep sep [] front back

/-- The words of a text are what was joined to it.  A separator behind the last
word adds none. -/
theorem words_intercalate {parts : List (List α)} {tail : List α}
    (hne : ∀ part ∈ parts, part ≠ []) (hparts : ∀ part ∈ parts, sep ∉ part)
    (htail : tail = [] ∨ tail = [sep]) :
    words sep ([sep].intercalate parts ++ tail) = parts := by
  induction parts with
  | nil => rcases htail with rfl | rfl <;> simp [words, wordsFrom]
  | cons part parts ih =>
    rw [forall_mem_cons] at hne hparts
    have hrest := ih hne.2 hparts.2
    cases parts with
    | nil =>
      rw [intercalate_singleton]
      rcases htail with rfl | rfl
      · rw [append_nil, words_of_not_mem hne.1 hparts.1]
      · rw [words_append_cons hne.1 hparts.1]
        rfl
    | cons second parts =>
      rw [intercalate_cons_cons]
      simp only [append_assoc, cons_append, nil_append]
      rw [words_append_cons hne.1 hparts.1, hrest]

variable {text : List α}

theorem not_mem_of_mem_splitOn
    (hpart : part ∈ text.splitOn sep) : sep ∉ part := by
  induction hlength : text.length using Nat.strongRecOn
    generalizing text with
  | _ length ih =>
    cases hcut : splitFirst sep text with
    | none =>
      rw [splitFirst_eq_none_iff] at hcut
      rw [splitOn_eq_singleton hcut, mem_singleton] at hpart
      exact hpart ▸ hcut
    | some cut =>
      obtain ⟨front, back⟩ := cut
      have hless := length_of_splitFirst hcut
      obtain ⟨rfl, hfront⟩ := splitFirst_eq_some_iff.1 hcut
      rw [splitOn_append_cons_self_of_not_mem hfront] at hpart
      rcases mem_cons.1 hpart with rfl | hpart
      · exact hfront
      · exact ih back.length (by omega) hpart rfl

theorem subset_of_mem_splitOn
    (hpart : part ∈ text.splitOn sep) : part ⊆ text := by
  intro value hvalue
  rw [← @intercalate_splitOn _ text _ _ sep]
  exact mem_intercalate.2 (.inl ⟨part, hpart, hvalue⟩)

/-- A value other than the separator stands in one of the parts. -/
theorem mem_iff_exists_mem_splitOn {value : α} (hvalue : value ≠ sep) :
    value ∈ text ↔ ∃ part ∈ text.splitOn sep, value ∈ part := by
  constructor
  · intro hmem
    rw [← @intercalate_splitOn _ text _ _ sep, mem_intercalate] at hmem
    exact hmem.resolve_right fun hsep => hvalue hsep.1
  · rintro ⟨part, hpart, hmem⟩
    exact subset_of_mem_splitOn hpart hmem

/-- Without empty fields `strsep` and `strtok` agree. -/
theorem words_eq_splitOn (hne : ∀ part ∈ text.splitOn sep, part ≠ []) :
    words sep text = text.splitOn sep := by
  have hwords := words_intercalate hne
    (fun part hpart => not_mem_of_mem_splitOn hpart) (.inl rfl)
  rwa [append_nil, intercalate_splitOn] at hwords

end Words

end Tomato64.Split
