import Mathlib.Data.List.Basic

/-!
# Glob patterns

A pattern is a list of tokens.  A star takes any characters but the barrier, a
double star takes any characters, and a star that ends the pattern takes
whatever is left.

A matcher that only remembers the last star puts the piece behind every other
star at the first place where it fits.  `FirstFit` says when a text is matched
in this way.
-/

namespace Tomato64.Glob

open List

inductive Token (α : Type*)
  | literal (char : α)
  | one
  | star (double : Bool)
  deriving DecidableEq, Repr

variable {α : Type*} (barrier : α)

/-- What a star may be stretched over. -/
def Gap (double : Bool) (front : List α) : Prop :=
  double = false → barrier ∉ front

theorem gap_nil (double : Bool) : Gap barrier double [] :=
  fun _ => not_mem_nil

variable {double : Bool} {pattern : List (Token α)} {text : List α}

theorem gap_cons_iff {char : α} {front : List α} :
    Gap barrier double (char :: front) ↔
      ¬ (double = false ∧ char = barrier) ∧ Gap barrier double front := by
  rw [Gap, Gap, mem_cons, not_or]
  constructor
  · intro hgap
    refine ⟨fun hboth => ?_, fun hsingle => (hgap hsingle).2⟩
    exact (hgap hboth.1).1 hboth.2.symm
  · rintro ⟨hchar, hgap⟩ hsingle
    exact ⟨fun hsame => hchar ⟨hsingle, hsame.symm⟩, hgap hsingle⟩

/-- The language of a pattern. -/
def Matches : List (Token α) → List α → Prop
  | [], text => text = []
  | .literal char :: rest, text =>
    ∃ more, text = char :: more ∧ Matches rest more
  | .one :: rest, text => ∃ char more, text = char :: more ∧ Matches rest more
  | .star double :: rest, text =>
    rest = [] ∨ ∃ front back, text = front ++ back ∧
      Gap barrier double front ∧ Matches rest back

/-! ## Pieces -/

/-- What comes of matching the piece in front of the next star at the front of
a text: it does not fit, it is the end of the pattern and of the text, or the
star is reached. -/
inductive Piece (α : Type*)
  | fails
  | ends
  | stops (double : Bool) (rest : List (Token α)) (text : List α)
  deriving DecidableEq, Repr

variable [DecidableEq α]

def matchPiece : List (Token α) → List α → Piece α
  | [], [] => .ends
  | [], _ :: _ => .fails
  | .star double :: rest, text => .stops double rest text
  | .literal _ :: _, [] => .fails
  | .literal char :: rest, other :: text =>
    if char = other then matchPiece rest text else .fails
  | .one :: _, [] => .fails
  | .one :: rest, _ :: text => matchPiece rest text

variable {rest : List (Token α)}

theorem length_lt_of_stops {left : List α}
    (hstops : matchPiece pattern text = .stops double rest left) :
    rest.length < pattern.length := by
  fun_induction matchPiece pattern text with
  | case1 => cases hstops
  | case2 => cases hstops
  | case3 => cases hstops; simp
  | case4 => cases hstops
  | case5 rest other text ih =>
    exact Nat.lt_trans (ih hstops) (Nat.lt_succ_self _)
  | case6 => cases hstops
  | case7 => cases hstops
  | case8 rest other text ih =>
    exact Nat.lt_trans (ih hstops) (Nat.lt_succ_self _)

theorem not_ends_of_stops {left other : List α}
    (hstops : matchPiece pattern text = .stops double rest left) :
    matchPiece pattern other ≠ .ends := by
  fun_induction matchPiece pattern text generalizing other with
  | case1 => cases hstops
  | case2 => cases hstops
  | case3 => simp [matchPiece]
  | case4 => cases hstops
  | case5 char rest text ih =>
    cases other with
    | nil => simp [matchPiece]
    | cons head other =>
      rw [matchPiece]
      split
      · exact ih hstops
      · simp
  | case6 => cases hstops
  | case7 => cases hstops
  | case8 rest char text ih =>
    cases other with
    | nil => simp [matchPiece]
    | cons head other => exact ih hstops

/-- A text is in the language if and only if the first piece fits and the rest
behind the star is matched. -/
theorem matches_iff_matchPiece (pattern : List (Token α)) (text : List α) :
    Matches barrier pattern text ↔
      matchPiece pattern text = .ends ∨
        ∃ double rest left, matchPiece pattern text = .stops double rest left ∧
          Matches barrier (.star double :: rest) left := by
  fun_induction matchPiece pattern text with
  | case1 => simp [Matches]
  | case2 char text => simp [Matches]
  | case3 double rest text => simp
  | case4 char rest => simp [Matches]
  | case5 char rest text ih => simp [Matches, ih]
  | case6 char rest other text hne => simp [Matches, Ne.symm hne]
  | case7 rest => simp [Matches]
  | case8 rest char text ih => simp [Matches, ih]

/-! ## The search behind a star -/

/-- The search for the piece behind a star.  It moves on to the next star as
soon as the piece fits, and does not come back. -/
def seek (double : Bool) (pattern : List (Token α)) (text : List α) : Bool :=
  if pattern = [] then true
  else
    match _hpiece : matchPiece pattern text with
    | .ends => true
    | .stops next rest left => seek next rest left
    | .fails =>
      match text with
      | [] => false
      | char :: more =>
        if double = false ∧ char = barrier then false
        else seek double pattern more
  termination_by (pattern.length, text.length)
  decreasing_by
    · exact Prod.Lex.left _ _ (length_lt_of_stops _hpiece)
    · exact Prod.Lex.right _ (Nat.lt_succ_self _)

def search (pattern : List (Token α)) (text : List α) : Bool :=
  match matchPiece pattern text with
  | .ends => true
  | .stops double rest left => seek barrier double rest left
  | .fails => false

/-- What is behind a star can be found with the piece in front of every other
star at the first place where it fits. -/
inductive FirstFit : Bool → List (Token α) → List α → Prop
  | trailing (double : Bool) (text : List α) : FirstFit double [] text
  | last {double : Bool} {pattern : List (Token α)} {front back : List α}
      (hgap : Gap barrier double front)
      (hends : matchPiece pattern back = .ends) :
      FirstFit double pattern (front ++ back)
  | inner {double next : Bool} {pattern rest : List (Token α)}
      {front back left : List α} (hgap : Gap barrier double front)
      (hstops : matchPiece pattern back = .stops next rest left)
      (hfirst : ∀ early late, early ++ late = front ++ back →
        early.length < front.length → matchPiece pattern late = .fails)
      (hrest : FirstFit next rest left) :
      FirstFit double pattern (front ++ back)

variable {barrier}

/-- A place where the piece does not fit is passed over. -/
theorem FirstFit.cons {char : α} {more : List α}
    (hfit : FirstFit barrier double pattern more)
    (hchar : ¬ (double = false ∧ char = barrier))
    (hfails : matchPiece pattern (char :: more) = .fails) :
    FirstFit barrier double pattern (char :: more) := by
  cases hfit with
  | trailing => exact .trailing double (char :: more)
  | @last _ _ front back hgap hends =>
    rw [← cons_append]
    exact .last ((gap_cons_iff barrier).mpr ⟨hchar, hgap⟩) hends
  | @inner _ _ _ _ front back _ hgap hstops hfirst hrest =>
    rw [← cons_append]
    refine .inner ((gap_cons_iff barrier).mpr ⟨hchar, hgap⟩) hstops ?_ hrest
    intro early late happend hearly
    cases early with
    | nil =>
      rw [nil_append] at happend
      rw [happend]
      exact hfails
    | cons head early =>
      rw [cons_append, cons_append, List.cons.injEq] at happend
      exact hfirst early late happend.2 (Nat.lt_of_succ_lt_succ hearly)

theorem firstFit_of_seek (hseek : seek barrier double pattern text = true) :
    FirstFit barrier double pattern text := by
  fun_induction seek barrier double pattern text with
  | case1 double text => exact .trailing double text
  | case2 double pattern text hpattern hends =>
    exact .last (gap_nil barrier double) hends
  | case3 double pattern text hpattern next rest left hstops ih =>
    refine .inner (gap_nil barrier double) hstops ?_ (ih hseek)
    intro early late happend hearly
    exact absurd hearly (Nat.not_lt_zero _)
  | case4 => cases hseek
  | case5 => cases hseek
  | case6 double pattern hpattern char more hfails hchar ih =>
    exact (ih hseek).cons hchar hfails

theorem seek_of_ends (hends : matchPiece pattern text = .ends) (double : Bool) :
    seek barrier double pattern text = true := by
  rw [seek]
  split
  · rfl
  · split
    · rfl
    · next hstops => rw [hends] at hstops; cases hstops
    · next hfails => rw [hends] at hfails; cases hfails

theorem seek_of_stops {left : List α} {next : Bool}
    (hstops : matchPiece pattern text = .stops next rest left) (double : Bool) :
    seek barrier double pattern text = seek barrier next rest left := by
  have hpattern : pattern ≠ [] := by
    rintro rfl
    exact absurd (length_lt_of_stops hstops) (Nat.not_lt_zero _)
  rw [seek, if_neg hpattern]
  split
  · next hends => rw [hstops] at hends; cases hends
  · next hsame =>
    rw [hstops] at hsame
    cases hsame
    rfl
  · next hfails => rw [hstops] at hfails; cases hfails

/-- Where the piece does not fit, the star is stretched if it can be. -/
theorem seek_of_fails (hpattern : pattern ≠ [])
    (hfails : matchPiece pattern text = .fails) (double : Bool) :
    seek barrier double pattern text =
      match text with
      | [] => false
      | char :: more =>
        if double = false ∧ char = barrier then false
        else seek barrier double pattern more := by
  rw [seek, if_neg hpattern]
  split
  · next hends => rw [hfails] at hends; cases hends
  · next hstops => rw [hfails] at hstops; cases hstops
  · cases text with
    | nil => rfl
    | cons char more => rfl

/-- A piece that fits behind some characters is found there or before. -/
theorem seek_append {double : Bool} {pattern : List (Token α)}
    {front back : List α} (hgap : Gap barrier double front)
    (hback : seek barrier double pattern back = true)
    (hearly : ∀ early late, early ++ late = front ++ back →
      early.length < front.length →
        matchPiece pattern late = .ends ∨ matchPiece pattern late = .fails) :
    seek barrier double pattern (front ++ back) = true := by
  by_cases hpattern : pattern = []
  · rw [seek, if_pos hpattern]
  induction front with
  | nil => exact hback
  | cons char front ih =>
    obtain ⟨hchar, hgap⟩ := (gap_cons_iff barrier).mp hgap
    have hrest := ih hgap fun early late happend hlength =>
      hearly (char :: early) late (by rw [cons_append, happend]; rfl)
        (Nat.succ_lt_succ hlength)
    rcases hearly [] (char :: (front ++ back)) rfl (Nat.succ_pos _) with
      hends | hfails
    · exact seek_of_ends hends double
    · rw [cons_append, seek_of_fails hpattern hfails]
      simp only
      rw [if_neg hchar, hrest]

theorem seek_of_firstFit (hfit : FirstFit barrier double pattern text) :
    seek barrier double pattern text = true := by
  induction hfit with
  | trailing double text => rw [seek, if_pos rfl]
  | @last double pattern front back hgap hends =>
    apply seek_append hgap
    · exact seek_of_ends hends double
    intro early late _ _
    cases hlate : matchPiece pattern late with
    | ends => exact .inl rfl
    | fails => exact .inr rfl
    | stops next rest left =>
      exact absurd hends (not_ends_of_stops hlate)
  | @inner double next pattern rest front back left hgap hstops hfirst _ ih =>
    apply seek_append hgap
    · rw [seek_of_stops hstops]
      exact ih
    · intro early late happend hlength
      exact .inr (hfirst early late happend hlength)

/-- A text that is found is in the language. -/
theorem FirstFit.matches (hfit : FirstFit barrier double pattern text) :
    Matches barrier (.star double :: pattern) text := by
  induction hfit with
  | trailing double text => exact .inl rfl
  | @last double pattern front back hgap hends =>
    exact .inr ⟨front, back, rfl, hgap,
      (matches_iff_matchPiece barrier pattern back).mpr (.inl hends)⟩
  | @inner double next pattern rest front back left hgap hstops _ _ ih =>
    exact .inr ⟨front, back, rfl, hgap,
      (matches_iff_matchPiece barrier pattern back).mpr
        (.inr ⟨next, rest, left, hstops, ih⟩)⟩

/-- The first piece is matched at the front of the text, and what is behind
the first star fits. -/
def Found (barrier : α) (pattern : List (Token α)) (text : List α) : Prop :=
  matchPiece pattern text = .ends ∨
    ∃ double rest left, matchPiece pattern text = .stops double rest left ∧
      FirstFit barrier double rest left

theorem search_eq_true_iff :
    search barrier pattern text = true ↔ Found barrier pattern text := by
  rw [search, Found]
  cases matchPiece pattern text with
  | fails => simp
  | ends => simp
  | stops double rest left =>
    constructor
    · intro hseek
      exact .inr ⟨double, rest, left, rfl, firstFit_of_seek hseek⟩
    · rintro (hends | ⟨_, _, _, hsame, hfit⟩)
      · cases hends
      · cases hsame
        exact seek_of_firstFit hfit

theorem Found.matches (hfound : Found barrier pattern text) :
    Matches barrier pattern text := by
  rw [matches_iff_matchPiece]
  rcases hfound with hends | ⟨double, rest, left, hstops, hfit⟩
  · exact .inl hends
  · exact .inr ⟨double, rest, left, hstops, hfit.matches⟩

end Tomato64.Glob
