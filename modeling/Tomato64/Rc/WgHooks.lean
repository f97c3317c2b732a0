import Mathlib.Data.List.DropRight
import Tomato64.Core.Run
import Tomato64.Core.Scan
import Tomato64.Core.Split
import Tomato64.Core.Stdio

/-!
# Hooks in a WireGuard configuration file

`wg_config_has_exec_hooks` reads a file in pieces of up to 1023 bytes and looks
for the keys whose values `wg-quick` would run as shell commands.  The loop of
`parse_options` over the lines of a file takes whole lines, drops NUL bytes and
comments, and then looks for the same keys.  What stands before that loop, and
whether the script comes to it, is not part of this comparison.
-/

namespace Tomato64.WgHooks

open List Run Scan Split Stdio Text

inductive Hook where
  | preUp
  | postUp
  | preDown
  | postDown
deriving DecidableEq

/-- The keys of the hooks. -/
def hooks : List (Bytes × Hook) :=
  [(bytes "PreUp", .preUp), (bytes "PostUp", .postUp),
    (bytes "PreDown", .preDown), (bytes "PostDown", .postDown)]

def hookOf (key : Bytes) : Option Hook :=
  (hooks.find? fun entry => equalNoCase key entry.1).map Prod.snd

/-! ## The check -/

def maxLine : ℤ := 1024

theorem one_lt_maxLine : 1 < maxLine := by
  decide

/-- The round of the loop over the pieces of the file: a hook is found. -/
def pieceHasHook (line : Bytes) : Bool :=
  let text := (cstr line).dropWhile isSpace
  if text = [] ∨ text.head? = some (ascii '#') then false
  else
    match splitFirst (ascii '=') text with
    | none => false
    | some (front, _) => (hookOf (front.rdropWhile isSpace)).isSome

/-- `wg_config_has_exec_hooks` for a file, or none that can be opened. -/
def wgConfigHasExecHooks : Option Bytes → ℤ
  | none => -1
  | some file =>
    if (lines one_lt_maxLine file).any pieceHasHook then 1 else 0

/-! ## The loop of `parse_options` -/

/-- `[:blank:]`, and the blanks that `read` takes off a line. -/
def isBlank (char : Byte) : Bool :=
  char = 32 || char = 9

/-- What `read -r` makes of a line. -/
def readLine (raw : Bytes) : Bytes :=
  ((raw.filter (· ≠ 0)).dropWhile isBlank).rdropWhile isBlank

def stripComment (line : Bytes) : Bytes :=
  let text := line.takeWhile (· ≠ ascii '#')
  if text.all isBlank then [] else text

def isKeyChar (char : Byte) : Bool :=
  char ≠ ascii '=' && !isBlank char

/-- The key of a line, which is the whole line if there is no value. -/
def keyOf (stripped : Bytes) : Bytes :=
  let text := stripped.dropWhile isBlank
  let word := text.takeWhile isKeyChar
  let rest := (text.dropWhile isKeyChar).dropWhile isBlank
  if word ≠ [] ∧ rest.head? = some (ascii '=') then word else stripped

/-- The value of a line, which is the whole line if there is no key. -/
def valueOf (stripped : Bytes) : Bytes :=
  match splitFirst (ascii '=') stripped with
  | some (front, back) =>
    if front = [] then stripped
    else (back.dropWhile isBlank).rdropWhile isBlank
  | none => stripped

/-- The variables of `parse_options` that matter for the hooks.  `died` is set
when `read_bool` has ended the program. -/
structure Parse where
  interfaceSection : Bool
  recorded : List (Hook × Bytes)
  died : Bool
deriving DecidableEq

def Parse.initial : Parse :=
  ⟨false, [], false⟩

/-- The round of the loop over the lines. -/
def parseLine (state : Parse) (raw : Bytes) : Parse :=
  if state.died then state
  else
    let stripped := stripComment (readLine raw)
    let key := keyOf stripped
    if key.head? = some (ascii '[') then
      { state with interfaceSection := key = bytes "[Interface]" }
    else if state.interfaceSection then
      match hookOf key with
      | some hook =>
        { state with
          recorded := state.recorded ++ [(hook, valueOf stripped)] }
      | none =>
        if equalNoCase key (bytes "saveconfig") ∧
            valueOf stripped ≠ bytes "true" ∧
            valueOf stripped ≠ bytes "false" then
          { state with died := true }
        else state
    else state

/-- The lines of a file.  An empty one at the end changes nothing. -/
def rawLines (file : Bytes) : List Bytes :=
  file.splitOn newline

def optionLoop (file : Bytes) : Parse :=
  (rawLines file).foldl parseLine .initial

/-! ## What the check is for -/

/-- The loop records no hook of a file that passes the check. -/
def Bounded (file : Bytes) : Prop :=
  wgConfigHasExecHooks (some file) = 0 → (optionLoop file).recorded = []

/-- A piece shows a hook: blanks, the key, blanks and an equals sign. -/
def ShowsHook (piece : Bytes) : Prop :=
  ∃ before key behind rest,
    piece = before ++ key ++ behind ++ ascii '=' :: rest ∧
    NulFree (before ++ key ++ behind) ∧ (∀ char ∈ before, isSpace char = true) ∧
    (∀ char ∈ behind, isSpace char = true) ∧ (hookOf key).isSome = true

/-- Lines are looked at for hooks in this state. -/
def Parse.Active (state : Parse) : Prop :=
  state.interfaceSection = true ∧ state.died = false

def IsHookLine (raw : Bytes) : Prop :=
  (hookOf (keyOf (stripComment (readLine raw)))).isSome = true

/-- The first equals sign of a line is among the first 1023 bytes, and there is
neither a NUL nor a comment before it. -/
def Clear (raw : Bytes) : Prop :=
  ∃ front back, raw = front ++ ascii '=' :: back ∧ front.length < 1023 ∧
    ascii '=' ∉ front ∧ NulFree front ∧ ascii '#' ∉ front

/-! ## Keys -/

def isLetter (char : Byte) : Bool :=
  97 ≤ toLower char && toLower char ≤ 122

theorem isLetter_facts : ∀ char : Byte, isLetter char = true →
    isSpace char = false ∧ isBlank char = false ∧ char ≠ ascii '=' ∧
      char ≠ ascii '#' ∧ char ≠ ascii '[' :=
  forall_byte (by decide +kernel)

theorem isLetter_of_hookOf {key : Bytes} (hkey : (hookOf key).isSome = true) :
    key ≠ [] ∧ ∀ char ∈ key, isLetter char = true := by
  rw [hookOf, Option.isSome_map] at hkey
  obtain ⟨entry, hentry⟩ := Option.isSome_iff_exists.mp hkey
  have hequal : equalNoCase key entry.1 = true := by
    simpa using find?_some hentry
  have hmap : key.map toLower = entry.1.map toLower := of_decide_eq_true hequal
  have hall : ∀ entry ∈ hooks, entry.1 ≠ [] ∧
      ∀ char ∈ entry.1.map toLower, 97 ≤ char ∧ char ≤ 122 := by decide
  obtain ⟨hne, hletters⟩ := hall entry (mem_of_find?_eq_some hentry)
  constructor
  · rintro rfl
    exact hne (map_eq_nil_iff.mp hmap.symm)
  · intro char hchar
    obtain ⟨hlow, hhigh⟩ := hletters (toLower char)
      (hmap ▸ mem_map.mpr ⟨char, hchar, rfl⟩)
    simp [isLetter, hlow, hhigh]

theorem dropWhile_append_of_stop {p : Byte → Bool} {front back : Bytes}
    (hfront : ∀ char ∈ front, p char = true)
    (hback : ∀ char, back.head? = some char → p char = false) :
    (front ++ back).dropWhile p = back := by
  rw [dropWhile_append_of_pos hfront]
  cases back with
  | nil => rfl
  | cons char back => exact dropWhile_cons_of_neg (by simp [hback char rfl])

theorem rdropWhile_append_of_stop {p : Byte → Bool} {front back : Bytes}
    (hback : ∀ char ∈ back, p char = true)
    (hfront : ∀ char ∈ front, p char = false) :
    (front ++ back).rdropWhile p = front := by
  rw [rdropWhile, reverse_append, dropWhile_append_of_stop,
    reverse_reverse]
  · simpa using hback
  · intro char hchar
    exact hfront char (mem_reverse.mp (mem_of_head? hchar))

/-- A text is what stands before the blanks at its end, and these blanks. -/
theorem exists_rdropWhile (p : Byte → Bool) (text : Bytes) :
    ∃ behind, text = text.rdropWhile p ++ behind ∧
      ∀ char ∈ behind, p char = true := by
  refine ⟨(text.reverse.takeWhile p).reverse, ?_, ?_⟩
  · rw [rdropWhile, ← reverse_append, takeWhile_append_dropWhile,
      reverse_reverse]
  · intro char hchar
    exact mem_takeWhile_imp (mem_reverse.mp hchar)

/-- The check finds a hook in exactly the pieces that show one. -/
theorem pieceHasHook_iff {piece : Bytes} :
    pieceHasHook piece = true ↔ ShowsHook piece := by
  constructor
  · intro hhook
    rw [pieceHasHook] at hhook
    split at hhook
    · cases hhook
    split at hhook
    · cases hhook
    next front back hcut =>
    obtain ⟨htext, -⟩ := splitFirst_eq_some_iff.mp hcut
    obtain ⟨behind, hfront, hbehind⟩ := exists_rdropWhile isSpace front
    have hcstr : (cstr piece).takeWhile isSpace ++
        (front ++ ascii '=' :: back) = cstr piece := by
      rw [← htext, takeWhile_append_dropWhile]
    obtain ⟨rest, hpiece⟩ : cstr piece <+: piece := takeWhile_prefix _
    have hnul := nulFree_cstr piece
    rw [← hcstr, ← append_assoc, nulFree_append] at hnul
    refine ⟨(cstr piece).takeWhile isSpace, front.rdropWhile isSpace,
      behind, back ++ rest, ?_, ?_, ?_, hbehind, hhook⟩
    · rw [append_assoc _ _ behind, ← hfront, ← cons_append,
        ← append_assoc, append_assoc _ front, hcstr, hpiece]
    · rw [append_assoc, ← hfront]
      exact hnul.1
    · exact fun char hchar => mem_takeWhile_imp hchar
  · rintro ⟨before, key, behind, rest, rfl, hnul, hbefore, hbehind, hkey⟩
    obtain ⟨hne, hletters⟩ := isLetter_of_hookOf hkey
    obtain ⟨first, others, rfl⟩ := exists_cons_of_ne_nil hne
    have hfirst := isLetter_facts first (hletters first mem_cons_self)
    have hequals : ascii '=' ∉ first :: others ++ behind := by
      intro hmem
      rcases mem_append.mp hmem with hmem | hmem
      · exact (isLetter_facts _ (hletters _ hmem)).2.2.1 rfl
      · exact absurd (hbehind _ hmem) (by decide)
    have hcstr :
        cstr (before ++ first :: others ++ behind ++ ascii '=' :: rest) =
          before ++ (first :: others ++ behind ++ ascii '=' :: cstr rest) := by
      have hequal : cstr (ascii '=' :: rest) = ascii '=' :: cstr rest := rfl
      rw [cstr_append hnul, hequal]
      simp only [append_assoc]
    have htext : (before ++ (first :: others ++ behind ++
        ascii '=' :: cstr rest)).dropWhile isSpace =
          first :: others ++ behind ++ ascii '=' :: cstr rest := by
      refine dropWhile_append_of_stop hbefore fun char hchar => ?_
      obtain rfl : first = char := Option.some.inj hchar
      exact hfirst.1
    have hplain : ∀ char ∈ first :: others, isSpace char = false :=
      fun char hchar => (isLetter_facts char (hletters char hchar)).1
    have hstart : ¬ (first :: others ++ behind ++ ascii '=' :: cstr rest = [] ∨
        (first :: others ++ behind ++ ascii '=' :: cstr rest).head? =
          some (ascii '#')) := by
      rintro (hnil | hcomment)
      · cases hnil
      · exact hfirst.2.2.2.1 (Option.some.inj hcomment)
    rw [pieceHasHook, hcstr, htext, if_neg hstart, splitFirst_append hequals]
    dsimp only
    rw [rdropWhile_append_of_stop hbehind hplain]
    exact hkey

/-! ## Lines with an equals sign -/

section
variable {p : Byte → Bool} {stop : Byte} (hstop : p stop = false)
include hstop

theorem dropWhile_append_cons (front back : Bytes) :
    (front ++ stop :: back).dropWhile p =
      front.dropWhile p ++ stop :: back := by
  induction front with
  | nil => simp [hstop]
  | cons char front ih =>
    rw [cons_append, dropWhile_cons, dropWhile_cons]
    split
    · exact ih
    · rfl

theorem takeWhile_append_cons (front back : Bytes) :
    (front ++ stop :: back).takeWhile p = front.takeWhile p := by
  induction front with
  | nil => simp [hstop]
  | cons char front ih =>
    rw [cons_append, takeWhile_cons, takeWhile_cons, ih]

theorem rdropWhile_append_cons (front back : Bytes) :
    (front ++ stop :: back).rdropWhile p =
      front ++ stop :: back.rdropWhile p := by
  rw [rdropWhile, reverse_append, reverse_cons,
    append_assoc, singleton_append, dropWhile_append_cons hstop]
  simp [rdropWhile]

end

/-- A line whose equals sign the shell sees. -/
theorem exists_stripComment_eq {front back : Bytes} (hnul : NulFree front)
    (hcomment : ascii '#' ∉ front) :
    ∃ rest, stripComment (readLine (front ++ ascii '=' :: back)) =
      front.dropWhile isBlank ++ ascii '=' :: rest := by
  have hfilter : (front ++ ascii '=' :: back).filter (· ≠ 0) =
      front ++ ascii '=' :: back.filter (· ≠ 0) := by
    have hfront : front.filter (· ≠ 0) = front := by
      refine filter_eq_self.mpr fun char hchar => ?_
      rw [decide_eq_true_eq]
      rintro rfl
      exact hnul hchar
    rw [filter_append, hfront]
    rfl
  have hblank : isBlank (ascii '=') = false := by decide
  rw [readLine, hfilter, dropWhile_append_cons hblank,
    rdropWhile_append_cons hblank, stripComment]
  have hplain : ∀ char ∈ front.dropWhile isBlank,
      decide (char ≠ ascii '#') = true := by
    intro char hchar
    rw [decide_eq_true_eq]
    rintro rfl
    exact hcomment ((dropWhile_suffix _).subset hchar)
  rw [takeWhile_append_of_pos hplain, takeWhile_cons_of_pos (by decide), if_neg]
  · exact ⟨_, rfl⟩
  · intro hall
    have hequals := all_eq_true.mp hall (ascii '=') (by simp)
    rw [hblank] at hequals
    cases hequals

/-- The key of such a line stands before the equals sign, between blanks. -/
theorem exists_key_of_clear {front back : Bytes} (hequals : ascii '=' ∉ front)
    (hnul : NulFree front) (hcomment : ascii '#' ∉ front)
    (hhook : IsHookLine (front ++ ascii '=' :: back)) :
    ∃ before key behind, front = before ++ key ++ behind ∧
      (∀ char ∈ before, isSpace char = true) ∧
      (∀ char ∈ behind, isSpace char = true) ∧ (hookOf key).isSome = true := by
  obtain ⟨rest, hstripped⟩ := exists_stripComment_eq hnul hcomment
  rw [IsHookLine, hstripped] at hhook
  have hspace : ∀ char, isBlank char = true → isSpace char = true :=
    forall_byte (by decide +kernel)
  have hblank : isBlank (ascii '=') = false := by decide
  have hkeyChar : isKeyChar (ascii '=') = false := by decide
  have htext : (front.dropWhile isBlank ++ ascii '=' :: rest).dropWhile isBlank =
      front.dropWhile isBlank ++ ascii '=' :: rest := by
    rw [dropWhile_append_cons hblank, dropWhile_idempotent]
  rw [keyOf, htext, takeWhile_append_cons hkeyChar,
    dropWhile_append_cons hkeyChar, dropWhile_append_cons hblank] at hhook
  split at hhook
  · next hmatch =>
    refine ⟨front.takeWhile isBlank, (front.dropWhile isBlank).takeWhile
      isKeyChar, (front.dropWhile isBlank).dropWhile isKeyChar, ?_, ?_, ?_,
      hhook⟩
    · rw [append_assoc, takeWhile_append_dropWhile, takeWhile_append_dropWhile]
    · exact fun char hchar => hspace char (mem_takeWhile_imp hchar)
    have hnil : ((front.dropWhile isBlank).dropWhile isKeyChar).dropWhile
        isBlank = [] := by
      cases htail : ((front.dropWhile isBlank).dropWhile isKeyChar).dropWhile
          isBlank with
      | nil => rfl
      | cons char others =>
        rw [htail] at hmatch
        obtain rfl : char = ascii '=' := Option.some.inj hmatch.2
        have hsuffix := ((dropWhile_suffix isBlank).trans
          (dropWhile_suffix isKeyChar)).trans
            (dropWhile_suffix (l := front) isBlank)
        rw [htail] at hsuffix
        exact absurd (hsuffix.subset mem_cons_self) hequals
    intro char hchar
    exact hspace char (dropWhile_eq_nil_iff.mp hnil char hchar)
  · -- without a match the key would be the line, equals sign and all
    obtain ⟨-, hletters⟩ := isLetter_of_hookOf hhook
    have hletter := hletters (ascii '=') (by simp)
    exact absurd hletter (by decide)

theorem exists_showsHook_of_clear {file raw : Bytes} (hline : raw ∈ rawLines file)
    (hclear : Clear raw) (hhook : IsHookLine raw) :
    ∃ piece ∈ lines one_lt_maxLine file, ShowsHook piece := by
  obtain ⟨front, back, rfl, hlength, hequals, hnul, hcomment⟩ := hclear
  obtain ⟨before, key, behind, rfl, hbefore, hbehind, hkey⟩ :=
    exists_key_of_clear hequals hnul hcomment hhook
  rw [rawLines, ← singleton_append, ← append_assoc] at hline
  obtain ⟨more, hmore⟩ := exists_mem_lines_of_mem_splitOn one_lt_maxLine hline
    (by simp) (by
      rw [length_append, length_singleton, maxLine]
      omega)
  refine ⟨_, hmore, before, key, behind, more, ?_, hnul, hbefore, hbehind, hkey⟩
  rw [append_assoc _ [ascii '='], singleton_append]

/-! ## What the loop records -/

theorem recorded_parseLine_iff {state : Parse} {raw : Bytes} :
    (parseLine state raw).recorded = [] ↔
      state.recorded = [] ∧ ¬ (state.Active ∧ IsHookLine raw) := by
  rw [parseLine, Parse.Active, IsHookLine]
  cases hdied : state.died with
  | true => simp
  | false =>
    cases hhook : hookOf (keyOf (stripComment (readLine raw))) with
    | none =>
      simp only [hhook, Bool.false_eq_true, if_false, Option.isSome_none,
        and_false, not_false_eq_true, and_true]
      split
      · exact Iff.rfl
      split
      · split
        · exact Iff.rfl
        · exact Iff.rfl
      · exact Iff.rfl
    | some hook =>
      have hkey : (hookOf (keyOf (stripComment (readLine raw)))).isSome =
          true := by
        rw [hhook]
        rfl
      obtain ⟨-, hletters⟩ := isLetter_of_hookOf hkey
      have hheader : (keyOf (stripComment (readLine raw))).head? ≠
          some (ascii '[') := by
        intro hhead
        have hletter := hletters _ (mem_of_head? hhead)
        exact (isLetter_facts _ hletter).2.2.2.2 rfl
      simp only [hhook, Bool.false_eq_true, if_false, if_neg hheader]
      cases state.interfaceSection with
      | false => simp
      | true => simp

theorem recorded_foldl_iff {state : Parse} {raws : List Bytes} :
    (raws.foldl parseLine state).recorded = [] ↔ state.recorded = [] ∧
      Along parseLine (fun state raw => ¬ (state.Active ∧ IsHookLine raw)) state
        raws := by
  induction raws generalizing state with
  | nil => exact (and_iff_left trivial).symm
  | cons raw raws ih =>
    rw [foldl_cons, ih, recorded_parseLine_iff, and_assoc]
    rfl

/-- The check covers the loop exactly when a piece of the file shows a hook, or
every line that is looked at and has the key of a hook is clear. -/
theorem bounded_iff (file : Bytes) :
    Bounded file ↔ (∃ piece ∈ lines one_lt_maxLine file, ShowsHook piece) ∨
      Along parseLine
        (fun state raw => state.Active → IsHookLine raw → Clear raw) .initial
        (rawLines file) := by
  have hcheck : wgConfigHasExecHooks (some file) = 0 ↔
      ¬ ∃ piece ∈ lines one_lt_maxLine file, ShowsHook piece := by
    simp only [← pieceHasHook_iff, ← any_eq_true]
    rw [wgConfigHasExecHooks]
    split
    · next hany => simp [hany]
    · next hany => simp [hany]
  constructor
  · intro hbounded
    by_cases hshows : ∃ piece ∈ lines one_lt_maxLine file, ShowsHook piece
    · exact Or.inl hshows
    right
    have hrecorded := hbounded (hcheck.mpr hshows)
    obtain ⟨-, halong⟩ := recorded_foldl_iff.mp hrecorded
    refine halong.imp fun state raw _ hnone hactive hhook => ?_
    exact absurd ⟨hactive, hhook⟩ hnone
  · intro hcase hzero
    have hshows := hcheck.mp hzero
    have halong := hcase.resolve_left hshows
    refine recorded_foldl_iff.mpr ⟨rfl, halong.imp ?_⟩
    rintro state raw hraw hclear ⟨hactive, hhook⟩
    exact hshows (exists_showsHook_of_clear hraw (hclear hactive hhook) hhook)

/-- A hook behind a NUL. -/
def hiddenHook : Bytes :=
  bytes "[Interface]" ++ newline :: 0 :: bytes "PostUp=reboot" ++ [newline]

theorem lines_hiddenHook : lines one_lt_maxLine hiddenHook =
    [bytes "[Interface]" ++ [newline],
      0 :: bytes "PostUp=reboot" ++ [newline]] := by
  have hfile : hiddenHook = [bytes "[Interface]",
      0 :: bytes "PostUp=reboot"].flatMap (· ++ [newline]) := by decide
  rw [hfile, lines_flatMap one_lt_maxLine (by decide)]
  rfl

/-- The check stops at the NUL, and `read` drops it. -/
theorem not_bounded_hiddenHook : ¬ Bounded hiddenHook := by
  intro hbounded
  have hzero : wgConfigHasExecHooks (some hiddenHook) = 0 := by
    rw [wgConfigHasExecHooks, lines_hiddenHook]
    decide
  have hrecorded : (optionLoop hiddenHook).recorded =
      [(.postUp, bytes "reboot")] := by decide
  have hnone := hbounded hzero
  rw [hrecorded] at hnone
  cases hnone

end Tomato64.WgHooks
