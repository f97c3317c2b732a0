import Tomato64.Core.Split
import Tomato64.Core.Text

/-!
# Lines of a shell script

A line is split into words and operators by the rules of the POSIX shell.  A
word keeps its quotes here; quotes and backslashes only decide where it ends.
A line may hold no newline, must close its quotes, and a `#` at the start of a
word makes the rest of it a comment.

A command line is made of pieces with one blank between them: fixed text of a
template and values that are meant to be one word each.
-/

namespace Tomato64.Shell

open List Text

/-- What the quotes before a character say about it. -/
inductive Quote where
  | outside
  | escaped
  | single
  | double
  | doubleEscaped
deriving DecidableEq

/-- The state behind a character of a word. -/
def Quote.next : Quote → Byte → Quote
  | .outside, char =>
    if char = 92 then .escaped
    else if char = 39 then .single
    else if char = 34 then .double
    else .outside
  | .escaped, _ => .outside
  | .single, char => if char = 39 then .outside else .single
  | .double, char =>
    if char = 34 then .outside
    else if char = 92 then .doubleEscaped
    else .double
  | .doubleEscaped, _ => .double

def isBlank (char : Byte) : Bool :=
  char = 32 || char = 9

/-- A character of an operator: one of `&();<>|`. -/
def isOperator (char : Byte) : Bool :=
  char = 38 || char = 40 || char = 41 || char = 59 || char = 60 || char = 62 ||
    char = 124

inductive Token where
  | word (raw : Bytes)
  | operator (char : Byte)
deriving DecidableEq

inductive State where
  | between
  | comment
  | word (quote : Quote) (raw : Bytes)
deriving DecidableEq

/-- A character of a line: the tokens that it ends, and the next state. -/
def step : State → Byte → Option (List Token × State)
  | .between, char =>
    if char = 10 then none
    else if isBlank char then some ([], .between)
    else if isOperator char then some ([.operator char], .between)
    else if char = 35 then some ([], .comment)
    else some ([], .word (Quote.next .outside char) [char])
  | .comment, char => if char = 10 then none else some ([], .comment)
  | .word quote raw, char =>
    if char = 10 then none
    else if quote = .outside ∧ isBlank char then
      some ([.word raw], .between)
    else if quote = .outside ∧ isOperator char then
      some ([.word raw, .operator char], .between)
    else some ([], .word (quote.next char) (raw ++ [char]))

/-- The end of a line. -/
def finish : State → Option (List Token)
  | .between | .comment => some []
  | .word quote raw => if quote = .outside then some [.word raw] else none

def lexFrom : State → Bytes → Option (List Token)
  | state, [] => finish state
  | state, char :: text =>
    (step state char).bind fun read =>
      (lexFrom read.2 text).map fun tokens => read.1 ++ tokens

def lex (line : Bytes) : Option (List Token) :=
  lexFrom .between line

variable {char : Byte} {out : List Token} {state next : State}
  {pieces : List Piece}

theorem lexFrom_cons
    (hstep : step state char = some (out, next)) (text : Bytes) :
    lexFrom state (char :: text) =
      (lexFrom next text).map fun tokens => out ++ tokens := by
  rw [lexFrom, hstep, Option.bind_some]

theorem lexFrom_cons_eq_some {text : Bytes} {tokens : List Token}
    (htokens : lexFrom state (char :: text) = some tokens) :
    ∃ out next others, step state char = some (out, next) ∧
      lexFrom next text = some others ∧ tokens = out ++ others := by
  rw [lexFrom, Option.bind_eq_some_iff] at htokens
  obtain ⟨⟨out, next⟩, hstep, hmap⟩ := htokens
  obtain ⟨others, hothers, rfl⟩ := Option.map_eq_some_iff.mp hmap
  exact ⟨out, next, others, hstep, hothers, rfl⟩

/-! ## Words -/

/-- The state behind a text that stays within one word. -/
def scan : Quote → Bytes → Option Quote
  | quote, [] => some quote
  | quote, char :: text =>
    if char = 10 ∨ (quote = .outside ∧ (isBlank char || isOperator char)) then
      none
    else scan (quote.next char) text

structure IsWord (text : Bytes) : Prop where
  ne_nil : text ≠ []
  not_comment : text.head? ≠ some 35
  closed : scan .outside text = some .outside

instance (text : Bytes) : Decidable (IsWord text) :=
  decidable_of_iff
    (text ≠ [] ∧ text.head? ≠ some 35 ∧ scan .outside text = some .outside)
    ⟨fun hword => ⟨hword.1, hword.2.1, hword.2.2⟩,
      fun hword => ⟨hword.ne_nil, hword.not_comment, hword.closed⟩⟩

/-- A character that the shell expands: `$` and a backquote also between double
quotes, the characters of patterns only outside. -/
def isActive : Quote → Byte → Bool
  | .outside, char => char = 36 || char = 96 || char = 42 || char = 63 || char = 91
  | .double, char => char = 36 || char = 96
  | _, _ => false

/-- Some character of a word is expanded. -/
def expands : Quote → Bytes → Bool
  | _, [] => false
  | quote, char :: text => isActive quote char || expands (quote.next char) text

/-- The text is one word and stands for itself up to its quotes. -/
def IsLiteral (text : Bytes) : Prop :=
  IsWord text ∧ expands .outside text = false

instance (text : Bytes) : Decidable (IsLiteral text) :=
  inferInstanceAs (Decidable (_ ∧ _))

theorem scan_append (quote : Quote) (front back : Bytes) :
    scan quote (front ++ back) =
      (scan quote front).bind fun next => scan next back := by
  induction front generalizing quote with
  | nil => rfl
  | cons char front ih =>
    rw [cons_append, scan, scan]
    split
    · rfl
    · exact ih _

/-- The part of a word that is read next becomes part of the word at hand. -/
theorem lexFrom_append_of_scan {quote final : Quote} {part : Bytes}
    (hscan : scan quote part = some final) (raw text : Bytes) :
    lexFrom (.word quote raw) (part ++ text) =
      lexFrom (.word final (raw ++ part)) text := by
  induction part generalizing quote raw with
  | nil =>
    cases hscan
    rw [nil_append, append_nil]
  | cons char part ih =>
    rw [scan] at hscan
    split at hscan
    · cases hscan
    next hstays =>
    rw [not_or, not_and, Bool.or_eq_true, not_or] at hstays
    have hstep : step (.word quote raw) char =
        some ([], .word (quote.next char) (raw ++ [char])) := by
      rw [step, if_neg hstays.1, if_neg, if_neg]
      · exact fun hoperator => (hstays.2 hoperator.1).2 hoperator.2
      · exact fun hblank => (hstays.2 hblank.1).1 hblank.2
    rw [cons_append, lexFrom_cons hstep, ih hscan,
      append_assoc, singleton_append]
    exact congrFun Option.map_id _

theorem lexFrom_append_of_isWord {word : Bytes} (hword : IsWord word)
    (text : Bytes) :
    lexFrom .between (word ++ text) = lexFrom (.word .outside word) text := by
  obtain ⟨char, rest, rfl⟩ := exists_cons_of_ne_nil hword.ne_nil
  have hclosed := hword.closed
  rw [scan] at hclosed
  split at hclosed
  · cases hclosed
  next hstays =>
  rw [not_or, not_and, Bool.or_eq_true, not_or] at hstays
  have hcomment : char ≠ 35 := by
    rintro rfl
    exact hword.not_comment rfl
  have hstep : step .between char =
      some ([], .word (Quote.next .outside char) [char]) := by
    rw [step, if_neg hstays.1, if_neg (hstays.2 rfl).1,
      if_neg (hstays.2 rfl).2, if_neg hcomment]
  rw [cons_append, lexFrom_cons hstep, lexFrom_append_of_scan hclosed,
    singleton_append]
  exact congrFun Option.map_id _

/-- A blank ends the word before it. -/
theorem step_blank {tokens : List Token} (hstate : state ≠ .comment)
    (hfinish : finish state = some tokens) :
    step state 32 = some (tokens, .between) := by
  cases state with
  | between =>
    cases hfinish
    rfl
  | comment => exact absurd rfl hstate
  | word quote raw =>
    rw [finish] at hfinish
    split at hfinish
    · next houtside =>
      cases hfinish
      rw [houtside]
      rfl
    · cases hfinish

theorem step_ne_comment (hstate : state ≠ .comment)
    (hchar : char ≠ 35) (hstep : step state char = some (out, next)) :
    next ≠ .comment := by
  cases state with
  | between =>
    rw [step] at hstep
    split_ifs at hstep <;> cases hstep <;> simp
  | comment => exact absurd rfl hstate
  | word quote raw =>
    rw [step] at hstep
    split_ifs at hstep <;> cases hstep <;> simp

/-- A text without comments is read on its own if a blank follows. -/
theorem lexFrom_append_blank {text : Bytes} (hcomment : 35 ∉ text)
    (hstate : state ≠ .comment) {tokens : List Token}
    (htokens : lexFrom state text = some tokens) (rest : Bytes) :
    lexFrom state (text ++ 32 :: rest) =
      (lex rest).map fun others => tokens ++ others := by
  induction text generalizing state tokens with
  | nil => rw [nil_append, lexFrom_cons (step_blank hstate htokens), lex]
  | cons char text ih =>
    rw [mem_cons, not_or] at hcomment
    obtain ⟨out, next, others, hstep, hothers, rfl⟩ :=
      lexFrom_cons_eq_some htokens
    have hnext := step_ne_comment hstate (Ne.symm hcomment.1) hstep
    rw [cons_append, lexFrom_cons hstep, ih hcomment.2 hnext hothers,
      Option.map_map]
    congr 1
    funext last
    exact (append_assoc out others last).symm

/-! ## What is read as a word is one -/

/-- The word at hand is the beginning of a word. -/
def State.Sound : State → Prop
  | .between | .comment => True
  | .word quote raw =>
    raw ≠ [] ∧ raw.head? ≠ some 35 ∧ scan .outside raw = some quote

theorem scan_append_singleton {raw : Bytes} {quote : Quote}
    (hraw : scan .outside raw = some quote) (hnewline : char ≠ 10)
    (hblank : ¬ (quote = .outside ∧ isBlank char = true))
    (hoperator : ¬ (quote = .outside ∧ isOperator char = true)) :
    scan .outside (raw ++ [char]) = some (quote.next char) := by
  rw [scan_append, hraw, Option.bind_some, scan, if_neg, scan]
  rintro (heq | ⟨houtside, hbreak⟩)
  · exact hnewline heq
  · rcases Bool.or_eq_true_iff.mp hbreak with heq | heq
    · exact hblank ⟨houtside, heq⟩
    · exact hoperator ⟨houtside, heq⟩

theorem step_sound (hstate : state.Sound)
    (hstep : step state char = some (out, next)) : next.Sound := by
  cases state with
  | comment =>
    rw [step] at hstep
    split_ifs at hstep
    cases hstep
    trivial
  | between =>
    rw [step] at hstep
    split_ifs at hstep with hnewline hblank hoperator hcomment <;>
      cases hstep
    · trivial
    · trivial
    · trivial
    · refine ⟨by simp, by simpa using hcomment, ?_⟩
      have hempty : scan .outside [] = some .outside := rfl
      exact scan_append_singleton hempty hnewline
        (fun hyes => hblank hyes.2) (fun hyes => hoperator hyes.2)
  | word quote raw =>
    obtain ⟨hne, hhead, hscan⟩ := hstate
    rw [step] at hstep
    split_ifs at hstep with hnewline hblank hoperator <;> cases hstep
    · trivial
    · trivial
    · refine ⟨by simp, ?_, ?_⟩
      · rwa [head?_append_of_ne_nil _ hne]
      · exact scan_append_singleton hscan hnewline hblank hoperator

/-- A word that is read is the one at hand, outside of quotes. -/
theorem eq_word_of_step {raw : Bytes}
    (hstep : step state char = some (out, next)) (hraw : .word raw ∈ out) :
    state = .word .outside raw := by
  cases state with
  | between | comment =>
    rw [step] at hstep
    split_ifs at hstep <;> cases hstep <;> simp at hraw
  | word quote word =>
    rw [step] at hstep
    split_ifs at hstep with hnewline hblank hoperator <;> cases hstep
    · simp_all
    · simp_all
    · simp at hraw

/-- What the steps of a line keep holds of each word when it is read. -/
theorem exists_of_mem_lexFrom (invariant : State → Bytes → Prop)
    (hkeep : ∀ {state char out next}, step state char = some (out, next) →
      ∀ text, invariant state (char :: text) → invariant next text)
    {text : Bytes} (hstate : invariant state text) {tokens : List Token}
    (htokens : lexFrom state text = some tokens) {raw : Bytes}
    (hraw : .word raw ∈ tokens) :
    ∃ rest, invariant (.word .outside raw) rest := by
  induction text generalizing state tokens with
  | nil =>
    have hcomment : state ≠ .comment := by
      rintro rfl
      cases htokens
      simp at hraw
    have hword := eq_word_of_step (step_blank hcomment htokens) hraw
    exact ⟨[], hword ▸ hstate⟩
  | cons char text ih =>
    obtain ⟨out, next, others, hstep, hothers, rfl⟩ :=
      lexFrom_cons_eq_some htokens
    rcases mem_append.mp hraw with hraw | hraw
    · exact ⟨_, eq_word_of_step hstep hraw ▸ hstate⟩
    · exact ih (hkeep hstep text hstate) hothers hraw

theorem isWord_of_mem_lex {line : Bytes} {tokens : List Token}
    (htokens : lex line = some tokens) {raw : Bytes}
    (hraw : .word raw ∈ tokens) : IsWord raw := by
  have hstart : State.Sound .between := trivial
  obtain ⟨-, hne, hhead, hscan⟩ := exists_of_mem_lexFrom
    (fun state _ => state.Sound)
    (fun hstep _ hsound => step_sound hsound hstep) hstart htokens hraw
  exact ⟨hne, hhead, hscan⟩

def State.length : State → ℕ
  | .between | .comment => 0
  | .word _ raw => raw.length

theorem step_length (hstep : step state char = some (out, next)) :
    next.length ≤ state.length + 1 := by
  cases state with
  | between | comment | word quote raw =>
    rw [step] at hstep
    split_ifs at hstep <;> cases hstep <;> simp [State.length]

theorem length_le_of_mem_lex {line : Bytes} {tokens : List Token}
    (htokens : lex line = some tokens) {raw : Bytes}
    (hraw : .word raw ∈ tokens) : raw.length ≤ line.length := by
  have hstart : State.length .between + line.length ≤ line.length := by
    rw [State.length, Nat.zero_add]
  obtain ⟨rest, hlength⟩ := exists_of_mem_lexFrom
    (fun state text => state.length + text.length ≤ line.length)
    (fun hstep text hlength => by
      have hnext := step_length hstep
      rw [length_cons] at hlength
      omega) hstart htokens hraw
  exact le_trans (Nat.le_add_right _ _) hlength

/-! ## Plain text -/

/-- A character that means nothing to the shell. -/
def isPlain (char : Byte) : Bool :=
  !(isBlank char || isOperator char || isActive .outside char || char = 10 ||
    char = 34 || char = 35 || char = 39 || char = 92)

theorem isPlain_spec (hchar : isPlain char = true) :
    isBlank char = false ∧ isOperator char = false ∧
      isActive .outside char = false ∧ char ≠ 10 ∧ char ≠ 35 ∧
        Quote.next .outside char = .outside := by
  simp only [isPlain, Bool.not_eq_true', Bool.or_eq_false_iff,
    decide_eq_false_iff_not] at hchar
  obtain ⟨⟨⟨⟨⟨⟨⟨hblank, hoperator⟩, hactive⟩, hnewline⟩, hdouble⟩, hcomment⟩,
    hsingle⟩, hescape⟩ := hchar
  refine ⟨hblank, hoperator, hactive, hnewline, hcomment, ?_⟩
  rw [Quote.next, if_neg hescape, if_neg hsingle, if_neg hdouble]

theorem scan_plain {text : Bytes} (htext : ∀ char ∈ text, isPlain char = true) :
    scan .outside text = some .outside ∧ expands .outside text = false := by
  induction text with
  | nil => exact ⟨rfl, rfl⟩
  | cons char text ih =>
    rw [forall_mem_cons] at htext
    obtain ⟨hscan, hexpands⟩ := ih htext.2
    obtain ⟨hblank, hoperator, hactive, hnewline, -, hnext⟩ :=
      isPlain_spec htext.1
    simp [scan, expands, hnext, hscan, hexpands, hactive, hblank, hoperator,
      hnewline]

theorem isLiteral_of_plain {text : Bytes} (hne : text ≠ [])
    (htext : ∀ char ∈ text, isPlain char = true) : IsLiteral text := by
  obtain ⟨hscan, hexpands⟩ := scan_plain htext
  refine ⟨⟨hne, ?_, hscan⟩, hexpands⟩
  intro hhead
  have hplain := htext 35 (mem_of_mem_head? hhead)
  exact absurd hplain (by decide)

/-- The word at hand is made of plain characters, if there is one. -/
def State.Plain : State → Prop
  | .between => True
  | .comment => False
  | .word quote raw => quote = .outside ∧ ∀ char ∈ raw, isPlain char = true

theorem step_plain (hchar : isPlain char = true) (hstate : state.Plain) :
    ∃ next, step state char = some ([], next) ∧ next.Plain := by
  obtain ⟨hblank, hoperator, -, hnewline, hcomment, hnext⟩ := isPlain_spec hchar
  cases state with
  | between =>
    refine ⟨.word .outside [char], ?_, rfl, by simpa using hchar⟩
    simp [step, hnewline, hblank, hoperator, hcomment, hnext]
  | comment => exact hstate.elim
  | word quote raw =>
    obtain ⟨rfl, hraw⟩ := hstate
    refine ⟨.word .outside (raw ++ [char]), ?_, rfl, ?_⟩
    · simp [step, hnewline, hblank, hoperator, hnext]
    · rw [forall_mem_append]
      exact ⟨hraw, by simpa using hchar⟩

theorem exists_step_blank (hchar : isBlank char = true) (hstate : state.Plain) :
    ∃ words : List Bytes,
      step state char = some (words.map Token.word, .between) ∧
        ∀ word ∈ words, expands .outside word = false := by
  have hnewline : char ≠ 10 := by
    rintro rfl
    exact absurd hchar (by decide)
  cases state with
  | between =>
    refine ⟨[], ?_, by simp⟩
    simp [step, hnewline, hchar]
  | comment => exact hstate.elim
  | word quote raw =>
    obtain ⟨rfl, hraw⟩ := hstate
    refine ⟨[raw], ?_, by simpa using (scan_plain hraw).2⟩
    simp [step, hnewline, hchar]

theorem exists_lexFrom_plain {text : Bytes}
    (htext : ∀ char ∈ text, isPlain char = true ∨ isBlank char = true)
    (hstate : state.Plain) :
    ∃ words : List Bytes,
      lexFrom state text = some (words.map Token.word) ∧
        ∀ word ∈ words, expands .outside word = false := by
  induction text generalizing state with
  | nil =>
    cases state with
    | between => exact ⟨[], rfl, by simp⟩
    | comment => exact hstate.elim
    | word quote raw =>
      obtain ⟨rfl, hraw⟩ := hstate
      exact ⟨[raw], rfl, by simpa using (scan_plain hraw).2⟩
  | cons char text ih =>
    rw [forall_mem_cons] at htext
    rcases htext.1 with hplain | hblank
    · obtain ⟨next, hstep, hnext⟩ := step_plain hplain hstate
      obtain ⟨words, hwords, hexpands⟩ := ih htext.2 hnext
      exact ⟨words, by rw [lexFrom_cons hstep, hwords]; rfl, hexpands⟩
    have hbetween : State.Plain .between := trivial
    obtain ⟨front, hstep, hfront⟩ := exists_step_blank hblank hstate
    obtain ⟨words, hwords, hexpands⟩ := ih htext.2 hbetween
    refine ⟨front ++ words, ?_, ?_⟩
    · rw [lexFrom_cons hstep, hwords, map_append]
      rfl
    · rw [forall_mem_append]
      exact ⟨hfront, hexpands⟩

/-- A text between double quotes. -/
def quoted (text : Bytes) : Bytes :=
  34 :: (text ++ [34])

/-- A character that means nothing between double quotes. -/
def isQuotable (char : Byte) : Bool :=
  !(isActive .double char || char = 10 || char = 34 || char = 92)

theorem scan_quotable {text : Bytes}
    (htext : ∀ char ∈ text, isQuotable char = true) :
    scan .double (text ++ [34]) = some .outside ∧
      expands .double (text ++ [34]) = false := by
  induction text with
  | nil => exact ⟨rfl, rfl⟩
  | cons char text ih =>
    rw [forall_mem_cons] at htext
    obtain ⟨hscan, hexpands⟩ := ih htext.2
    have hplain := htext.1
    simp only [isQuotable, Bool.not_eq_true', Bool.or_eq_false_iff,
      decide_eq_false_iff_not] at hplain
    obtain ⟨⟨⟨hactive, hnewline⟩, hdouble⟩, hescape⟩ := hplain
    have hnext : Quote.next .double char = .double := by
      rw [Quote.next, if_neg hdouble, if_neg hescape]
    simp [scan, expands, hnext, hscan, hexpands, hactive, hnewline]

theorem isLiteral_quoted {text : Bytes}
    (htext : ∀ char ∈ text, isQuotable char = true) :
    IsLiteral (quoted text) := by
  obtain ⟨hscan, hexpands⟩ := scan_quotable htext
  exact ⟨⟨by simp [quoted], by simp [quoted], hscan⟩, hexpands⟩

/-! ## Command lines -/

inductive Piece where
  | fixed (text : Bytes)
  | value (text : Bytes)
deriving DecidableEq

def Piece.text : Piece → Bytes
  | .fixed text | .value text => text

def Piece.tokens : Piece → List Token
  | .fixed text => (lex text).getD []
  | .value text => [.word text]

/-- The piece can be read on its own. -/
def Piece.Proper : Piece → Prop
  | .fixed text => 35 ∉ text ∧ (lex text).isSome
  | .value text => IsWord text

def lineOf (pieces : List Piece) : Bytes :=
  [32].intercalate (pieces.map Piece.text)

theorem Piece.Proper.lex_text {piece : Piece} (hpiece : piece.Proper) :
    lex piece.text = some piece.tokens := by
  cases piece with
  | fixed text =>
    obtain ⟨tokens, htokens⟩ := Option.isSome_iff_exists.mp hpiece.2
    simp [Piece.text, Piece.tokens, htokens]
  | value text =>
    have happend := lexFrom_append_of_isWord hpiece []
    rw [append_nil] at happend
    rw [Piece.text, lex, happend, lexFrom, finish, if_pos rfl, Piece.tokens]

theorem Piece.Proper.lex_append {piece : Piece} (hpiece : piece.Proper)
    (rest : Bytes) :
    lex (piece.text ++ 32 :: rest) =
      (lex rest).map fun others => piece.tokens ++ others := by
  cases piece with
  | fixed text =>
    exact lexFrom_append_blank hpiece.1 (by simp) hpiece.lex_text rest
  | value text =>
    have hstep : step (.word .outside text) 32 = some ([.word text], .between) :=
      step_blank (by simp) rfl
    rw [Piece.text, lex, lexFrom_append_of_isWord hpiece, lexFrom_cons hstep]
    rfl

theorem lineOf_cons (piece : Piece) (hne : pieces ≠ []) :
    lineOf (piece :: pieces) = piece.text ++ 32 :: lineOf pieces := by
  obtain ⟨other, pieces, rfl⟩ := exists_cons_of_ne_nil hne
  simp [lineOf]

/-- Proper pieces in front are read on their own. -/
theorem lex_lineOf_append (hne : pieces ≠ [])
    (hpieces : ∀ piece ∈ pieces, piece.Proper) (rest : Bytes) :
    lex (lineOf pieces ++ 32 :: rest) =
      (lex rest).map fun others => pieces.flatMap Piece.tokens ++ others := by
  induction pieces with
  | nil => exact absurd rfl hne
  | cons piece pieces ih =>
    rw [forall_mem_cons] at hpieces
    by_cases hlast : pieces = []
    · subst hlast
      simpa [lineOf] using hpieces.1.lex_append rest
    rw [lineOf_cons piece hlast, append_assoc, cons_append,
      hpieces.1.lex_append, ih hlast hpieces.2, Option.map_map]
    congr 1
    funext others
    simp

theorem lex_lineOf (hpieces : ∀ piece ∈ pieces, piece.Proper) :
    lex (lineOf pieces) = some (pieces.flatMap Piece.tokens) := by
  induction pieces with
  | nil => rfl
  | cons piece pieces ih =>
    rw [forall_mem_cons] at hpieces
    by_cases hlast : pieces = []
    · subst hlast
      simpa [lineOf] using hpieces.1.lex_text
    · rw [lineOf_cons piece hlast, hpieces.1.lex_append, ih hpieces.2]
      rfl

/-- The piece can be read on its own, and a value is not expanded. -/
def Piece.Literal : Piece → Prop
  | .fixed text => 35 ∉ text ∧ (lex text).isSome
  | .value text => IsLiteral text

instance (piece : Piece) : Decidable piece.Literal :=
  match piece with
  | .fixed text => inferInstanceAs (Decidable (35 ∉ text ∧ (lex text).isSome))
  | .value text => inferInstanceAs (Decidable (IsLiteral text))

/-- Letters, digits, blanks and a few signs without a meaning: a quick test for
the text of templates. -/
def isSimple (char : Byte) : Bool :=
  (97 ≤ char && char ≤ 122) || char = 32 || (65 ≤ char && char ≤ 95) &&
    char ≠ 91 && char ≠ 92 || (45 ≤ char && char ≤ 58)

theorem plain_or_blank_of_isSimple :
    isSimple char = true → isPlain char = true ∨ isBlank char = true :=
  forall_byte (p := fun char => isSimple char = true →
    isPlain char = true ∨ isBlank char = true) (by decide +kernel) char

/-- Fixed text of simple characters is read without a look at the quotes. -/
theorem literal_fixed {text : Bytes} (htext : text.all isSimple = true) :
    Piece.Literal (.fixed text) := by
  have hbetween : State.Plain .between := trivial
  have hchars : ∀ char ∈ text, isPlain char = true ∨ isBlank char = true :=
    fun char hchar =>
      plain_or_blank_of_isSimple (all_eq_true.mp htext char hchar)
  obtain ⟨words, hwords, -⟩ := exists_lexFrom_plain hchars hbetween
  refine ⟨fun hcomment => ?_, ?_⟩
  · exact absurd (hchars 35 hcomment) (by decide)
  · rw [lex, hwords]
    rfl

theorem Piece.Literal.proper {piece : Piece} (hpiece : piece.Literal) :
    piece.Proper := by
  cases piece with
  | fixed text => exact hpiece
  | value text => exact hpiece.1

theorem isWord_of_lex_eq {line : Bytes}
    (hline : lex line = some (pieces.flatMap Piece.tokens)) {text : Bytes}
    (hvalue : .value text ∈ pieces) : IsWord text := by
  refine isWord_of_mem_lex hline ?_
  exact mem_flatMap.mpr ⟨_, hvalue, mem_singleton_self _⟩

theorem lineOf_append_singleton {front : List Piece} (hne : front ≠ [])
    (last : Piece) :
    lineOf (front ++ [last]) = lineOf front ++ 32 :: last.text := by
  induction front with
  | nil => exact absurd rfl hne
  | cons piece front ih =>
    by_cases hlast : front = []
    · subst hlast
      simp [lineOf]
    · rw [cons_append, lineOf_cons piece (by simp), ih hlast,
        lineOf_cons piece hlast, append_assoc, cons_append]

/-- If a line that is cut within its last value is read as meant, nothing has
been cut. -/
theorem length_le_of_lex_take {front : List Piece} (hne : front ≠ [])
    (hfront : ∀ piece ∈ front, piece.Proper) {text : Bytes} {limit : ℕ}
    (hlimit : (lineOf front).length < limit)
    (hlex : lex ((lineOf (front ++ [Piece.value text])).take limit) =
      some ((front ++ [Piece.value text]).flatMap Piece.tokens)) :
    (lineOf (front ++ [.value text])).length ≤ limit := by
  obtain ⟨room, rfl⟩ : ∃ room, limit = (lineOf front).length + (room + 1) :=
    ⟨limit - (lineOf front).length - 1, by omega⟩
  rw [lineOf_append_singleton hne, take_length_add_append, take_succ_cons,
    lex_lineOf_append hne hfront, flatMap_append] at hlex
  obtain ⟨others, hothers, heq⟩ := Option.map_eq_some_iff.mp hlex
  have hword : others = [.word text] := append_cancel_left heq
  have hlength := length_le_of_mem_lex hothers (hword ▸ mem_singleton_self _)
  rw [length_take] at hlength
  rw [lineOf_append_singleton hne, length_append, length_cons]
  simp only [Piece.text]
  omega

end Tomato64.Shell
