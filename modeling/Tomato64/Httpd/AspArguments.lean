import Tomato64.Httpd.AspParser

/-!
# Tags of templates

The text of a tag is put together from its parts: quoted strings with escaped
characters, bare words, and blanks between them.  `held` is what the buffer
holds for an argument when the function is called, and `value` is what the tag
stands for.
-/

namespace Tomato64.AspParser

open List Text

variable (count : ℕ)

def blanks : Bytes :=
  replicate count 32

/-- A character of a quoted string, by itself or behind a backslash. -/
inductive Item
  | plain (char : Byte)
  | escaped (char : Byte)
  deriving DecidableEq, Repr

def Item.text : Item → Bytes
  | .plain char => [char]
  | .escaped char => [92, char]

def Item.value : Item → Byte
  | .plain char => char
  | .escaped char => char

/-- What the buffer holds for a character. -/
def Item.held : Item → Bytes
  | .plain char => [char]
  | .escaped char => [char, char]

inductive Argument
  | quoted (quote : Byte) (items : List Item)
  | bare (word : Bytes)
  deriving DecidableEq, Repr

/-- A quoted string does not contain its quote or a backslash by themselves,
and a bare word cannot be taken for anything else. -/
def Argument.Wf : Argument → Prop
  | .quoted quote items => isQuote quote = true ∧
      ∀ char, Item.plain char ∈ items → char ≠ quote ∧ char ≠ 92
  | .bare word => word ≠ [] ∧ (∀ char ∈ word, isBareChar char = true) ∧
      ∀ char ∈ word.head?, isQuote char = false

def Argument.text : Argument → Bytes
  | .quoted quote items => quote :: (items.flatMap Item.text ++ [quote])
  | .bare word => word

def Argument.value : Argument → Bytes
  | .quoted _ items => items.map Item.value
  | .bare word => word

/-- An argument with the blanks around it. -/
structure Spaced where
  before : ℕ
  argument : Argument
  after : ℕ
  deriving DecidableEq, Repr

variable (spaced : Spaced)

def Spaced.text : Bytes :=
  blanks spaced.before ++ (spaced.argument.text ++ blanks spaced.after)

def Spaced.held : Bytes :=
  match spaced.argument with
  | .quoted _ items => items.flatMap Item.held
  | .bare word => word ++ blanks spaced.after

structure Tag where
  lead : ℕ
  ident : Bytes
  gap : ℕ
  args : List Spaced
  /-- the blanks between the parentheses when there is no argument -/
  inner : ℕ
  tail : Bytes
  ident_ne : ident ≠ []
  ident_chars : ∀ char ∈ ident, isIdentChar char = true
  args_wf : ∀ spaced ∈ args, spaced.argument.Wf
  tail_chars : ∀ char ∈ tail, char = 32 ∨ char = 59

/-- The arguments separated by commas. -/
def argsText : List Spaced → Bytes
  | [] => []
  | [spaced] => spaced.text
  | spaced :: next :: rest => spaced.text ++ 44 :: argsText (next :: rest)

variable (tag : Tag)

def Tag.text : Bytes :=
  blanks tag.lead ++ (tag.ident ++ (blanks tag.gap ++ 40 ::
    ((if tag.args = [] then blanks tag.inner else argsText tag.args) ++
      41 :: tag.tail)))

/-! ## One argument -/

theorem skipBlanks_blanks {text : Bytes} (htext : text.head? ≠ some 32) :
    skipBlanks (blanks count ++ text) = text := by
  have hblanks : ∀ char ∈ blanks count, decide (char = 32) = true := by
    intro char hchar
    rw [decide_eq_true_eq]
    exact eq_of_mem_replicate hchar
  rw [skipBlanks, dropWhile_append_of_pos hblanks]
  cases text with
  | nil => rfl
  | cons char text =>
    rw [head?_cons, ne_eq, Option.some.injEq] at htext
    rw [dropWhile_cons_of_neg (by simpa using htext)]

theorem quotedArg_cons {quote char : Byte} (hquote : char ≠ quote)
    (hescape : char ≠ 92) {text : Bytes} (htext : text ≠ []) :
    quotedArg quote (char :: text) =
      (quotedArg quote text).map fun cut => (char :: cut.1, cut.2) := by
  obtain ⟨next, rest, rfl⟩ := exists_cons_of_ne_nil htext
  rw [quotedArg, if_neg hquote, if_neg hescape]

theorem quotedArg_items {quote : Byte} (hquote : isQuote quote = true)
    {items : List Item}
    (hitems : ∀ char, Item.plain char ∈ items → char ≠ quote ∧ char ≠ 92)
    (rest : Bytes) :
    quotedArg quote (items.flatMap Item.text ++ quote :: rest) =
      some (items.flatMap Item.held, rest) := by
  induction items with
  | nil =>
    rw [flatMap_nil, nil_append]
    cases rest with
    | nil => rw [quotedArg, if_pos rfl]; rfl
    | cons char rest => rw [quotedArg, if_pos rfl]; rfl
  | cons item items ih =>
    have hrest := ih fun char hchar =>
      hitems char (mem_cons_of_mem item hchar)
    rw [flatMap_cons, flatMap_cons]
    cases item with
    | plain char =>
      obtain ⟨hne, hescape⟩ := hitems char mem_cons_self
      change quotedArg quote (char ::
        (items.flatMap Item.text ++ quote :: rest)) = _
      rw [quotedArg_cons hne hescape (by simp), hrest]
      rfl
    | escaped char =>
      have hbackslash : (92 : Byte) ≠ quote := by
        rintro rfl
        exact absurd hquote (by decide)
      change quotedArg quote (92 :: char ::
        (items.flatMap Item.text ++ quote :: rest)) = _
      rw [quotedArg, if_neg hbackslash, if_pos rfl, hrest]
      rfl

/-- What ends an argument. -/
def isDelimiter (char : Byte) : Bool :=
  char = 44 || char = 41

theorem isBareChar_of_isDelimiter {char : Byte}
    (hchar : isDelimiter char = true) : isBareChar char = false := by
  rw [isDelimiter, Bool.or_eq_true, decide_eq_true_eq, decide_eq_true_eq]
    at hchar
  rcases hchar with rfl | rfl
  · decide
  · decide

theorem ne_blank_of_isDelimiter {char : Byte}
    (hchar : isDelimiter char = true) : char ≠ 32 := by
  rintro rfl
  exact absurd hchar (by decide)

theorem takeWhile_blanks {char : Byte} (hchar : char ≠ 32) (rest : Bytes) :
    (blanks count ++ char :: rest).takeWhile (· = 32) = blanks count := by
  have hblanks : ∀ other ∈ blanks count, decide (other = 32) = true := by
    intro other hother
    rw [decide_eq_true_eq]
    exact eq_of_mem_replicate hother
  rw [takeWhile_append_of_pos hblanks,
    takeWhile_cons_of_neg (by simpa using hchar), append_nil]

theorem dropWhile_word {word : Bytes}
    (hword : ∀ char ∈ word, isBareChar char = true) (count : ℕ) {next : Byte}
    (hnext : isDelimiter next = true) (rest : Bytes) :
    (word ++ (blanks count ++ next :: rest)).takeWhile isBareChar = word ∧
      (word ++ (blanks count ++ next :: rest)).dropWhile isBareChar =
        blanks count ++ next :: rest := by
  have hstop : ∃ char more, blanks count ++ next :: rest = char :: more ∧
      isBareChar char = false := by
    cases count with
    | zero => exact ⟨next, rest, rfl, isBareChar_of_isDelimiter hnext⟩
    | succ count => exact ⟨32, _, rfl, by decide⟩
  obtain ⟨char, more, heq, hchar⟩ := hstop
  rw [heq, takeWhile_append_of_pos hword, dropWhile_append_of_pos hword,
    takeWhile_cons_of_neg (by rw [hchar]; exact Bool.false_ne_true),
    dropWhile_cons_of_neg (by rw [hchar]; exact Bool.false_ne_true), append_nil]
  exact ⟨rfl, rfl⟩

/-- An argument is read up to the comma or the parenthesis behind it. -/
theorem parseArg_text {spaced : Spaced} (hwf : spaced.argument.Wf)
    {next : Byte} (hnext : isDelimiter next = true) (rest : Bytes) :
    parseArg (spaced.argument.text ++ (blanks spaced.after ++ next :: rest)) =
      some (spaced.held, next :: rest) := by
  have hskip : skipBlanks (blanks spaced.after ++ next :: rest) =
      next :: rest := by
    apply skipBlanks_blanks
    rw [head?_cons, ne_eq, Option.some.injEq]
    exact ne_blank_of_isDelimiter hnext
  rw [Spaced.held]
  cases hargument : spaced.argument with
  | quoted quote items =>
    rw [hargument] at hwf
    obtain ⟨hquote, hitems⟩ := hwf
    have htext : items.flatMap Item.text ++ [quote] ++
        (blanks spaced.after ++ next :: rest) =
          items.flatMap Item.text ++ quote ::
            (blanks spaced.after ++ next :: rest) := by
      rw [append_assoc, singleton_append]
    rw [Argument.text, cons_append, parseArg, if_pos hquote, htext,
      quotedArg_items hquote hitems, Option.map_some, hskip]
  | bare word =>
    rw [hargument] at hwf
    obtain ⟨hne, hword, hhead⟩ := hwf
    obtain ⟨first, tail, rfl⟩ := exists_cons_of_ne_nil hne
    have hquote : isQuote first = false := hhead first rfl
    obtain ⟨htake, hdrop⟩ := dropWhile_word hword spaced.after hnext rest
    rw [Argument.text]
    rw [cons_append] at htake hdrop ⊢
    rw [parseArg, if_neg (by rw [hquote]; exact Bool.false_ne_true)]
    simp only [htake, hdrop, hskip]
    rw [takeWhile_blanks spaced.after (ne_blank_of_isDelimiter hnext)]

/-- An argument does not begin with a blank or a parenthesis. -/
theorem head_argument {argument : Argument} (hwf : argument.Wf) (rest : Bytes) :
    ∃ char more, argument.text ++ rest = char :: more ∧ char ≠ 32 ∧
      char ≠ 41 := by
  cases argument with
  | quoted quote items =>
    refine ⟨quote, _, rfl, ?_, ?_⟩
    · rintro rfl
      exact absurd hwf.1 (by decide)
    · rintro rfl
      exact absurd hwf.1 (by decide)
  | bare word =>
    obtain ⟨first, tail, rfl⟩ := exists_cons_of_ne_nil hwf.1
    have hfirst := hwf.2.1 first mem_cons_self
    refine ⟨first, _, rfl, ?_, ?_⟩
    · rintro rfl
      exact absurd hfirst (by decide)
    · rintro rfl
      exact absurd hfirst (by decide)

/-! ## The list of arguments -/

theorem finalArgs_tail {tail : Bytes}
    (htail : ∀ char ∈ tail, char = 32 ∨ char = 59) (args : List Bytes) :
    finalArgs args tail = some args := by
  rw [finalArgs, if_pos]
  rw [dropWhile_eq_nil_iff]
  intro char hchar
  rcases htail char hchar with rfl | rfl
  · decide
  · decide

/-- The loop reads one argument. -/
theorem parseArgs_spaced (args : List Bytes) {spaced : Spaced}
    (hwf : spaced.argument.Wf) {next : Byte} (hnext : isDelimiter next = true)
    (rest : Bytes) :
    parseArgs args (spaced.text ++ next :: rest) =
      if 32 ≤ args.length then none
      else if next = 41 then finalArgs (args ++ [spaced.held]) rest
      else parseArgs (args ++ [spaced.held]) rest := by
  obtain ⟨char, more, hstart, hblank, hparen⟩ := head_argument hwf
    (blanks spaced.after ++ next :: rest)
  have hskip : skipBlanks (spaced.text ++ next :: rest) = char :: more := by
    rw [Spaced.text, append_assoc, append_assoc, hstart]
    apply skipBlanks_blanks
    rw [head?_cons, ne_eq, Option.some.injEq]
    exact hblank
  have harg := parseArg_text hwf hnext rest
  rw [hstart] at harg
  rw [parseArgs, if_neg (by simp), hskip]
  split
  · next hclose =>
    rw [List.cons.injEq] at hclose
    exact absurd hclose.1 hparen
  split
  · rfl
  rw [harg]
  rw [isDelimiter, Bool.or_eq_true, decide_eq_true_eq,
    decide_eq_true_eq] at hnext
  rcases hnext with rfl | rfl
  · rfl
  · rfl

/-- The loop reads all arguments if there are not too many. -/
theorem parseArgs_argsText {args : List Spaced}
    (hwf : ∀ spaced ∈ args, spaced.argument.Wf) (hargs : args ≠ [])
    {tail : Bytes} (htail : ∀ char ∈ tail, char = 32 ∨ char = 59)
    (front : List Bytes) :
    parseArgs front (argsText args ++ 41 :: tail) =
      if front.length + args.length ≤ 32 then
        some (front ++ args.map Spaced.held)
      else none := by
  fun_induction argsText args generalizing front with
  | case1 => exact absurd rfl hargs
  | case2 spaced =>
    rw [forall_mem_singleton] at hwf
    rw [parseArgs_spaced front hwf (by decide), if_pos rfl,
      finalArgs_tail htail, length_singleton]
    by_cases hfull : 32 ≤ front.length
    · rw [if_pos hfull, if_neg (by omega)]
    · rw [if_neg hfull, if_pos (by omega)]
      rfl
  | case3 spaced next rest ih =>
    rw [forall_mem_cons] at hwf
    have hrest := ih hwf.2 (cons_ne_nil next rest)
      (front ++ [spaced.held])
    rw [append_assoc, cons_append, parseArgs_spaced front hwf.1 (by decide),
      if_neg (show ¬ (44 : Byte) = 41 by decide), hrest, length_append,
      length_singleton]
    by_cases hfull : 32 ≤ front.length
    · rw [if_pos hfull, if_neg]
      simp only [length_cons]
      omega
    · rw [if_neg hfull, append_assoc]
      simp only [length_cons]
      congr 1
      exact propext (by omega)

theorem parseArgs_none {tail : Bytes}
    (htail : ∀ char ∈ tail, char = 32 ∨ char = 59) :
    parseArgs [] (blanks count ++ 41 :: tail) = some [] := by
  have hskip : skipBlanks (blanks count ++ 41 :: tail) = 41 :: tail :=
    skipBlanks_blanks count (by simp)
  rw [parseArgs, if_neg (by simp), hskip]
  exact finalArgs_tail htail []

/-! ## The whole tag -/

theorem Tag.ident_head (rest : Bytes) :
    (tag.ident ++ rest).head? ≠ some 32 := by
  obtain ⟨first, more, hident⟩ := exists_cons_of_ne_nil tag.ident_ne
  rw [hident, cons_append, head?_cons, ne_eq, Option.some.injEq]
  rintro rfl
  have hfirst := tag.ident_chars 32 (hident ▸ mem_cons_self)
  exact absurd hfirst (by decide)

/-- The identifier ends at a blank or at the parenthesis. -/
theorem Tag.span_ident (rest : Bytes) :
    (tag.ident ++ (blanks tag.gap ++ 40 :: rest)).takeWhile isIdentChar =
        tag.ident ∧
      (tag.ident ++ (blanks tag.gap ++ 40 :: rest)).dropWhile isIdentChar =
        blanks tag.gap ++ 40 :: rest := by
  have hstop : ∃ char more, blanks tag.gap ++ 40 :: rest = char :: more ∧
      ¬ isIdentChar char = true := by
    cases tag.gap with
    | zero => exact ⟨40, rest, rfl, by decide⟩
    | succ count => exact ⟨32, _, rfl, by decide⟩
  obtain ⟨char, more, heq, hchar⟩ := hstop
  rw [heq, takeWhile_append_of_pos tag.ident_chars,
    dropWhile_append_of_pos tag.ident_chars, takeWhile_cons_of_neg hchar,
    dropWhile_cons_of_neg hchar, append_nil]
  exact ⟨rfl, rfl⟩

theorem parseArgs_tag :
    parseArgs [] ((if tag.args = [] then blanks tag.inner
        else argsText tag.args) ++ 41 :: tag.tail) =
      if tag.args.length ≤ 32 then some (tag.args.map Spaced.held)
      else none := by
  by_cases hargs : tag.args = []
  · rw [if_pos hargs, parseArgs_none tag.inner tag.tail_chars, hargs]
    rfl
  · rw [if_neg hargs, parseArgs_argsText tag.args_wf hargs tag.tail_chars,
      length_nil, Nat.zero_add, nil_append]

/-- The tag is taken apart as it was put together, with the values that the
buffer holds. -/
theorem parseTag_text :
    parseTag tag.text =
      if tag.args.length ≤ 32 then
        some ⟨tag.ident, tag.args.map Spaced.held⟩
      else none := by
  rw [Tag.text, parseTag]
  simp only [skipBlanks_blanks tag.lead (tag.ident_head _),
    (tag.span_ident _).1, (tag.span_ident _).2]
  rw [if_neg tag.ident_ne, skipBlanks_blanks tag.gap (by simp)]
  simp only [parseArgs_tag]
  split
  · rfl
  · rfl

theorem runTag_text (known : Bytes → Bool) :
    runTag known tag.text =
      if tag.args.length ≤ 32 ∧ known tag.ident = true then
        [.call ⟨tag.ident, tag.args.map Spaced.held⟩]
      else [] := by
  rw [runTag, parseTag_text]
  by_cases hcount : tag.args.length ≤ 32
  · simp only [hcount, if_true, true_and]
  · simp only [hcount, if_false, false_and]

/-! ## Values -/

/-- `parse_asp` calls the function with the arguments that the tag stands
for. -/
def Called : Prop :=
  ∀ known : Bytes → Bool, known tag.ident = true →
    runTag known tag.text =
      [.call ⟨tag.ident, tag.args.map fun spaced => spaced.argument.value⟩]

/-- An argument without escaped characters, or a bare word with nothing but the
comma or the parenthesis behind it. -/
def Spaced.Simple : Prop :=
  match spaced.argument with
  | .quoted _ items => ∀ char, Item.escaped char ∉ items
  | .bare _ => spaced.after = 0

theorem length_le_held (items : List Item) :
    items.length ≤ (items.flatMap Item.held).length := by
  induction items with
  | nil => exact Nat.le_refl _
  | cons item items ih =>
    have hitem : 1 ≤ item.held.length := by
      cases item with
      | plain char => exact Nat.le_refl _
      | escaped char => exact Nat.le_succ _
    rw [flatMap_cons, length_append, length_cons]
    omega

/-- An escaped character is held twice. -/
theorem items_held_iff (items : List Item) :
    items.flatMap Item.held = items.map Item.value ↔
      ∀ char, Item.escaped char ∉ items := by
  induction items with
  | nil => simp
  | cons item items ih =>
    cases item with
    | plain char => simpa [Item.held, Item.value] using ih
    | escaped char =>
      constructor
      · intro hsame
        have hless := length_le_held items
        have hsizes := congrArg List.length hsame
        rw [flatMap_cons, length_append, length_map, length_cons] at hsizes
        change 2 + _ = _ at hsizes
        omega
      · intro hnone
        exact absurd mem_cons_self (hnone char)

theorem held_eq_value_iff :
    spaced.held = spaced.argument.value ↔ spaced.Simple := by
  rw [Spaced.held, Spaced.Simple]
  cases spaced.argument with
  | quoted quote items => exact items_held_iff items
  | bare word =>
    rw [Argument.value, blanks, append_right_eq_self]
    exact replicate_eq_nil_iff 32

/-- The function is called as the tag says if and only if it has at most 32
arguments and all of them are simple. -/
theorem called_iff_simple :
    Called tag ↔ tag.args.length ≤ 32 ∧ ∀ spaced ∈ tag.args, spaced.Simple := by
  have hvalues : tag.args.map Spaced.held =
        (tag.args.map fun spaced => spaced.argument.value) ↔
      ∀ spaced ∈ tag.args, spaced.Simple := by
    rw [map_inj_left]
    simp only [held_eq_value_iff]
  constructor
  · intro hcalled
    have hrun := hcalled (fun _ => true) rfl
    rw [runTag_text] at hrun
    split at hrun
    · next hcount =>
      simp only [List.cons.injEq, Event.call.injEq, Call.mk.injEq, true_and,
        and_true] at hrun
      exact ⟨hcount.1, hvalues.mp hrun⟩
    · cases hrun
  · rintro ⟨hcount, hsimple⟩ known hknown
    rw [runTag_text, if_pos ⟨hcount, hknown⟩, hvalues.mpr hsimple]

/-- A tag with at most 32 simple arguments calls its function with them. -/
theorem called_of_simple (tag : Tag) (hcount : tag.args.length ≤ 32)
    (hsimple : ∀ spaced ∈ tag.args, spaced.Simple) : Called tag :=
  (called_iff_simple tag).mpr ⟨hcount, hsimple⟩

/-- `<% nvram(…); %>` with the given arguments. -/
def nvramTag (args : List Spaced)
    (hargs : ∀ spaced ∈ args, spaced.argument.Wf) : Tag where
  lead := 1
  ident := bytes "nvram"
  gap := 0
  args := args
  inner := 0
  tail := bytes "; "
  ident_ne := by decide
  ident_chars := by decide
  args_wf := hargs
  tail_chars := by decide

/-- The bare word `a` with blanks behind it. -/
def wordA (after : ℕ) : Spaced :=
  ⟨0, .bare (bytes "a"), after⟩

theorem wf_wordA (after : ℕ) : (wordA after).argument.Wf := by
  refine ⟨by decide, by decide, ?_⟩
  rintro char ⟨⟩
  decide

/-- The argument `"\""`. -/
def quoteInQuotes : Spaced :=
  ⟨0, .quoted 34 [.escaped 34], 0⟩

theorem wf_quoteInQuotes : quoteInQuotes.argument.Wf := by
  refine ⟨by decide, fun char hchar => ?_⟩
  rw [mem_singleton] at hchar
  cases hchar

/-- The arguments `"x," , a`. -/
def stringAndWord : List Spaced :=
  [⟨1, .quoted 34 [.plain 120, .plain 44], 1⟩, ⟨1, .bare (bytes "a"), 0⟩]

theorem wf_stringAndWord :
    ∀ spaced ∈ stringAndWord, spaced.argument.Wf := by
  rw [stringAndWord, forall_mem_cons, forall_mem_singleton]
  refine ⟨⟨by decide, fun char hchar => ?_⟩, wf_wordA 0⟩
  simp only [mem_cons, Item.plain.injEq, not_mem_nil, or_false] at hchar
  rcases hchar with rfl | rfl <;> decide

def pairTag : Tag :=
  nvramTag stringAndWord wf_stringAndWord

theorem called_of_simple_pair :
    pairTag.args.length ≤ 32 ∧ Called pairTag := by
  refine ⟨by decide, called_of_simple pairTag (by decide) ?_⟩
  change ∀ spaced ∈ stringAndWord, spaced.Simple
  rw [stringAndWord, forall_mem_cons, forall_mem_singleton]
  exact ⟨fun char hchar => by simp at hchar, rfl⟩

/-- Not called: a tag with 33 arguments.  Called with something else: an
escaped quote is doubled, and a blank behind a bare word is kept. -/
theorem not_called :
    ¬ Called (nvramTag (replicate 33 (wordA 0)) fun _ hspaced =>
        eq_of_mem_replicate hspaced ▸ wf_wordA 0) ∧
      ¬ Called (nvramTag [quoteInQuotes]
        (forall_mem_singleton.mpr wf_quoteInQuotes)) ∧
      ¬ Called (nvramTag [wordA 1]
        (forall_mem_singleton.mpr (wf_wordA 1))) := by
  refine ⟨?_, ?_, ?_⟩
  · rw [called_iff_simple]
    rintro ⟨hcount, -⟩
    exact absurd hcount (by decide)
  · rw [called_iff_simple]
    rintro ⟨-, hsimple⟩
    exact hsimple quoteInQuotes mem_cons_self 34 mem_cons_self
  · rw [called_iff_simple]
    rintro ⟨-, hsimple⟩
    exact absurd (hsimple (wordA 1) mem_cons_self) Nat.one_ne_zero

/-! ## Whole files -/

end Tomato64.AspParser
