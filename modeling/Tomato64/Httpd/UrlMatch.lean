import Tomato64.Core.Glob
import Tomato64.Core.Split
import Tomato64.Core.Text

/-!
# Matching URLs

`match` tries the alternatives of a handler's pattern one after the other, and
`match_single` tries one alternative without recursion: it remembers the last
star, and stretches that star by one character when a comparison fails.
-/

namespace Tomato64.UrlMatch

open Glob List Split Text

/-- `last_star_pat`, `last_star_str` and `double_star`. -/
structure Star where
  pattern : Bytes
  text : Bytes
  double : Bool
  deriving DecidableEq, Repr

/-- A star at the front of the pattern and what follows it. -/
def takeStar : Bytes → Option (Bool × Bytes)
  | [] => none
  | char :: rest =>
    if char = 42 then
      if rest.head? = some 42 then some (true, rest.drop 1)
      else some (false, rest)
    else none

/-- A `?` or another character at the front of the pattern, compared with the
front of the text. -/
def advance : Bytes → Bytes → Option (Bytes × Bytes)
  | [], _ => none
  | _, [] => none
  | char :: rest, other :: text =>
    if char = 63 ∨ char = other then some (rest, text) else none

/-- The label `backtrack`: the last star takes one more character. -/
def backtrack : Option Star → Option Star
  | none => none
  | some ⟨_, [], _⟩ => none
  | some ⟨pattern, char :: text, double⟩ =>
    if double = false ∧ char = 47 then none
    else some ⟨pattern, text, double⟩

variable {pattern rest : Bytes}

theorem length_lt_of_takeStar {double : Bool}
    (hstar : takeStar pattern = some (double, rest)) :
    rest.length < pattern.length := by
  cases pattern with
  | nil => cases hstar
  | cons char tail =>
    rw [takeStar] at hstar
    split at hstar
    · split at hstar
      · cases hstar
        rw [length_drop, length_cons]
        omega
      · cases hstar
        exact Nat.lt_succ_self _
    · cases hstar

theorem length_of_advance {text more : Bytes}
    (hadvance : advance pattern text = some (rest, more)) :
    rest.length < pattern.length := by
  cases pattern with
  | nil => cases hadvance
  | cons char tail =>
    cases text with
    | nil => cases hadvance
    | cons other text =>
      rw [advance] at hadvance
      split at hadvance
      · cases hadvance
        exact Nat.lt_succ_self _
      · cases hadvance

variable {star : Option Star}

theorem backtrack_eq_some {next : Star} (hnext : backtrack star = some next) :
    ∃ char, star = some ⟨next.pattern, char :: next.text, next.double⟩ ∧
      ¬ (next.double = false ∧ char = 47) := by
  match star, hnext with
  | some ⟨pattern, char :: text, double⟩, hnext =>
    rw [backtrack] at hnext
    split at hnext
    · cases hnext
    · next hchar =>
      cases hnext
      exact ⟨char, rfl, hchar⟩

/-- The pattern to which the loop can still return. -/
def reach (star : Option Star) (pattern : Bytes) : ℕ :=
  match star with
  | none => pattern.length
  | some star => max star.pattern.length pattern.length

def behind (star : Option Star) : ℕ :=
  match star with
  | none => 0
  | some star => star.text.length

/-- The loop of `match_single`. -/
def scan (star : Option Star) (pattern text : Bytes) : Bool :=
  match _hstar : takeStar pattern with
  | some (double, rest) =>
    if rest = [] then true
    else scan (some ⟨rest, text, double⟩) rest text
  | none =>
    match _hadvance : advance pattern text with
    | some (rest, more) => scan star rest more
    | none =>
      if pattern = [] ∧ text = [] then true
      else
        match _hnext : backtrack star with
        | some next => scan (some next) next.pattern next.text
        | none => false
  termination_by (reach star pattern, behind star, pattern.length)
  decreasing_by
    · have hless := length_lt_of_takeStar _hstar
      apply Prod.Lex.left
      cases star with
      | none => simpa [reach] using hless
      | some star => simp only [reach]; omega
    · have hless := length_of_advance _hadvance
      cases star with
      | none => exact Prod.Lex.left _ _ hless
      | some star =>
        rcases Nat.lt_or_ge (reach (some star) rest)
          (reach (some star) pattern) with hlt | hge
        · exact Prod.Lex.left _ _ hlt
        have hsame :
            reach (some star) rest = reach (some star) pattern := by
          simp only [reach] at hge ⊢
          omega
        rw [hsame]
        exact Prod.Lex.right _ (Prod.Lex.right _ hless)
    · obtain ⟨char, rfl, _⟩ := backtrack_eq_some _hnext
      rcases Nat.lt_or_ge next.pattern.length
        (max next.pattern.length pattern.length) with hlt | hge
      · exact Prod.Lex.left _ _ (by simpa [reach] using hlt)
      have hsame : reach (some next) next.pattern =
          reach (some ⟨next.pattern, char :: next.text, next.double⟩)
            pattern := by
        simp only [reach]
        omega
      rw [hsame]
      exact Prod.Lex.right _ (Prod.Lex.left _ _ (Nat.lt_succ_self _))

def matchSingle (pattern text : Bytes) : Bool :=
  scan none pattern text

/-! ## The tokens of a pattern -/

def token (char : Byte) : Token Byte :=
  if char = 63 then .one else .literal char

/-- An alternative as a list of tokens.  Two stars in a row are a double
star. -/
def tokens (pattern : Bytes) : List (Token Byte) :=
  match _hstar : takeStar pattern with
  | some (double, rest) => .star double :: tokens rest
  | none =>
    match pattern with
    | [] => []
    | char :: rest => token char :: tokens rest
  termination_by pattern.length
  decreasing_by
    · exact length_lt_of_takeStar _hstar
    · exact Nat.lt_succ_self _

theorem tokens_nil : tokens [] = [] := by
  rw [tokens]
  rfl

theorem tokens_of_star {double : Bool}
    (hstar : takeStar pattern = some (double, rest)) :
    tokens pattern = .star double :: tokens rest := by
  rw [tokens]
  split
  · next hsame =>
    rw [hstar] at hsame
    cases hsame
    rfl
  · next hnone => rw [hstar] at hnone; cases hnone

theorem tokens_cons {char : Byte} (hstar : takeStar (char :: rest) = none) :
    tokens (char :: rest) = token char :: tokens rest := by
  rw [tokens]
  split
  · next hsome => rw [hstar] at hsome; cases hsome
  · rfl

theorem tokens_ne_nil (hpattern : pattern ≠ []) : tokens pattern ≠ [] := by
  obtain ⟨char, rest, rfl⟩ := exists_cons_of_ne_nil hpattern
  cases hstar : takeStar (char :: rest) with
  | none =>
    rw [tokens_cons hstar]
    exact cons_ne_nil _ _
  | some star =>
    rw [tokens_of_star hstar]
    exact cons_ne_nil _ _

/-- A character that is compared moves both sides on.  Where nothing can be
compared, the piece does not fit unless both have come to their end. -/
theorem matchPiece_tokens (hstar : takeStar pattern = none) (text : Bytes) :
    matchPiece (tokens pattern) text =
      match advance pattern text with
      | some (rest, more) => matchPiece (tokens rest) more
      | none => if pattern = [] ∧ text = [] then .ends else .fails := by
  cases pattern with
  | nil => cases text <;> rw [tokens_nil] <;> rfl
  | cons char tail =>
    rw [tokens_cons hstar, token]
    cases text with
    | nil => split <;> rfl
    | cons other text =>
      by_cases hone : char = 63
      · simp [advance, matchPiece, hone]
      · rw [if_neg hone, matchPiece]
        by_cases hsame : char = other <;> simp [advance, hone, hsame]

/-! ## The loop searches for the tokens -/

/-- What the loop does when a comparison fails. -/
def resume : Option Star → Bool
  | none => false
  | some ⟨_, [], _⟩ => false
  | some ⟨pattern, char :: text, double⟩ =>
    if double = false ∧ char = 47 then false
    else seek 47 double (tokens pattern) text

/-- What the loop does with what has become of a piece. -/
def proceed (star : Option Star) : Piece Byte → Bool
  | .ends => true
  | .stops double rest left => seek 47 double rest left
  | .fails => resume star

theorem seek_eq_proceed (hpattern : pattern ≠ [])
    (text : Bytes) (double : Bool) :
    seek 47 double (tokens pattern) text =
      proceed (some ⟨pattern, text, double⟩)
        (matchPiece (tokens pattern) text) := by
  cases hpiece : matchPiece (tokens pattern) text with
  | ends => exact seek_of_ends hpiece double
  | stops next rest left => exact seek_of_stops hpiece double
  | fails =>
    rw [seek_of_fails (tokens_ne_nil hpattern) hpiece, proceed]
    cases text with
    | nil => rfl
    | cons char text => rfl

theorem resume_eq (star : Option Star) :
    resume star =
      match backtrack star with
      | some next => seek 47 next.double (tokens next.pattern) next.text
      | none => false := by
  match star with
  | none => rfl
  | some ⟨pattern, [], double⟩ => rfl
  | some ⟨pattern, char :: text, double⟩ =>
    rw [resume, backtrack]
    split <;> rfl

theorem scan_eq_proceed (star : Option Star) (pattern text : Bytes)
    (hstar : ∀ last ∈ star, last.pattern ≠ []) :
    scan star pattern text =
      proceed star (matchPiece (tokens pattern) text) := by
  fun_induction scan star pattern text with
  | case1 star pattern text double htake =>
    rw [tokens_of_star htake, tokens_nil, matchPiece, proceed, seek, if_pos rfl]
  | case2 star pattern text double rest htake hrest ih =>
    rw [ih (by rintro _ ⟨⟩; exact hrest), ← seek_eq_proceed hrest,
      tokens_of_star htake]
    rfl
  | case3 star pattern text htake rest more hadvance ih =>
    rw [ih hstar, matchPiece_tokens htake, hadvance]
  | case4 star pattern text htake hadvance hboth =>
    rw [hboth.1, hboth.2, tokens_nil]
    rfl
  | case5 star pattern text htake hadvance hboth next hnext ih =>
    obtain ⟨char, rfl, _⟩ := backtrack_eq_some hnext
    have hpattern : next.pattern ≠ [] :=
      hstar ⟨next.pattern, char :: next.text, next.double⟩ rfl
    rw [ih (by rintro _ ⟨⟩; exact hpattern),
      ← seek_eq_proceed hpattern, matchPiece_tokens htake, hadvance]
    simp only [if_neg hboth, proceed, resume_eq, hnext]
  | case6 star pattern text htake hadvance hboth hnone =>
    rw [matchPiece_tokens htake, hadvance]
    simp only [if_neg hboth, proceed, resume_eq, hnone]

/-- `match_single` searches for the tokens of its pattern. -/
theorem matchSingle_eq_search (pattern text : Bytes) :
    matchSingle pattern text = search 47 (tokens pattern) text := by
  rw [matchSingle, scan_eq_proceed none pattern text nofun, search]
  cases matchPiece (tokens pattern) text with
  | fails => rfl
  | ends => rfl
  | stops double rest left => rfl

/-! ## All alternatives -/

/-- `match`. -/
def matchAlternatives (pattern text : Bytes) : Bool :=
  match _hcut : splitFirst 124 pattern with
  | some (front, rest) =>
    matchSingle front text || matchAlternatives rest text
  | none => matchSingle pattern text
  termination_by pattern.length
  decreasing_by
    have hlength := length_of_splitFirst _hcut
    omega

theorem matchAlternatives_eq_any (pattern text : Bytes) :
    matchAlternatives pattern text =
      (pattern.splitOn 124).any (matchSingle · text) := by
  fun_induction matchAlternatives pattern text with
  | case1 pattern front rest hcut ih =>
    obtain ⟨rfl, hfront⟩ := splitFirst_eq_some_iff.mp hcut
    rw [splitOn_append_cons_self_of_not_mem hfront, any_cons, ih]
  | case2 pattern hcut =>
    rw [splitOn_eq_singleton (splitFirst_eq_none_iff.mp hcut), any_cons,
      any_nil, Bool.or_false]

def InLanguage (pattern text : Bytes) : Prop :=
  ∃ alternative ∈ pattern.splitOn 124, Matches 47 (tokens alternative) text

/-- An alternative matches with every star but the last stretched only as far
as the first place where the piece behind it fits. -/
def FitsFirst (pattern text : Bytes) : Prop :=
  ∃ alternative ∈ pattern.splitOn 124, Found 47 (tokens alternative) text

theorem matchAlternatives_iff (pattern text : Bytes) :
    matchAlternatives pattern text = true ↔ FitsFirst pattern text := by
  rw [matchAlternatives_eq_any, any_eq_true, FitsFirst]
  constructor
  · rintro ⟨alternative, hmem, hsingle⟩
    rw [matchSingle_eq_search, search_eq_true_iff] at hsingle
    exact ⟨alternative, hmem, hsingle⟩
  · rintro ⟨alternative, hmem, hfound⟩
    refine ⟨alternative, hmem, ?_⟩
    rw [matchSingle_eq_search, search_eq_true_iff]
    exact hfound

/-- `match` decides the language of the pattern for this text. -/
def Decides (pattern text : Bytes) : Prop :=
  matchAlternatives pattern text = true ↔ InLanguage pattern text

/-- `match` decides the language for exactly those texts that are not in it or
are matched with every piece at its first place. -/
theorem decides_iff (pattern text : Bytes) :
    Decides pattern text ↔
      (InLanguage pattern text → FitsFirst pattern text) := by
  rw [Decides, matchAlternatives_iff]
  constructor
  · intro hiff hlanguage
    exact hiff.mpr hlanguage
  · intro hfits
    exact ⟨fun ⟨alternative, hmem, hfound⟩ =>
      ⟨alternative, hmem, hfound.matches⟩, hfits⟩

theorem tokens_nested : tokens (bytes "**a*b") =
    [.star true, .literal 97, .star false, .literal 98] := by
  rw [tokens_of_star (show takeStar (bytes "**a*b") =
      some (true, bytes "a*b") by decide),
    show bytes "a*b" = 97 :: bytes "*b" by decide, tokens_cons (by decide),
    tokens_of_star (show takeStar (bytes "*b") = some (false, bytes "b")
      by decide),
    show bytes "b" = 98 :: [] by decide, tokens_cons (by decide), tokens_nil]
  rfl

/-- The double star could be stretched over the slash, but the first `a` is
taken and the single star behind it cannot. -/
theorem not_decides_nested : ¬ Decides (bytes "**a*b") (bytes "a/ab") := by
  intro hdecides
  have halternatives : (bytes "**a*b").splitOn 124 = [bytes "**a*b"] :=
    splitOn_eq_singleton (by decide)
  have hlanguage : InLanguage (bytes "**a*b") (bytes "a/ab") := by
    refine ⟨bytes "**a*b", halternatives ▸ mem_singleton_self _, ?_⟩
    rw [tokens_nested]
    refine .inr ⟨bytes "a/", bytes "ab", by decide, nofun, ?_⟩
    exact ⟨bytes "b", by decide, .inr ⟨[], bytes "b", rfl, gap_nil _ _,
      [], by decide, rfl⟩⟩
  have hrefused : matchAlternatives (bytes "**a*b") (bytes "a/ab") = false := by
    rw [matchAlternatives_eq_any, halternatives, any_cons, any_nil,
      Bool.or_false, matchSingle_eq_search, tokens_nested]
    simp [search, seek, matchPiece, bytes, ascii]
  rw [Decides, hrefused] at hdecides
  exact Bool.false_ne_true (hdecides.mpr hlanguage)

end Tomato64.UrlMatch
