import Tomato64.Core.Search

/-!
# Page templates

`parse_asp` writes a page and replaces the tags `<% ident(arg, "arg"); %>` in
it by the output of the functions they name.  It works on a copy of the file,
in which it puts NULs behind the parts it has found: the value of an argument
is what the buffer holds from its start up to the next NUL when the function
is called.
-/

namespace Tomato64.AspParser

open List Search Text

/-- A call `api->exec(argc, argv)`. -/
structure Call where
  ident : Bytes
  argv : List Bytes
  deriving DecidableEq, Repr

def isIdentChar (char : Byte) : Bool :=
  (97 ≤ char && char ≤ 122) || (65 ≤ char && char ≤ 90) ||
    (48 ≤ char && char ≤ 57) || char = 95

/-- `while (*a == ' ') ++a`. -/
def skipBlanks (text : Bytes) : Bytes :=
  text.dropWhile (· = 32)

/-- The text behind an opening quote: what the buffer holds up to the closing
one, and what follows.  The character behind a backslash is copied over the
backslash and also stays where it was. -/
def quotedArg (quote : Byte) : Bytes → Option (Bytes × Bytes)
  | [] => none
  | [char] => if char = quote then some ([], []) else none
  | char :: next :: rest =>
    if char = quote then some ([], next :: rest)
    else if char = 92 then
      (quotedArg quote rest).map fun cut => (next :: next :: cut.1, cut.2)
    else
      (quotedArg quote (next :: rest)).map fun cut => (char :: cut.1, cut.2)

def isBareChar (char : Byte) : Bool :=
  char ≠ 44 && char ≠ 41 && char ≠ 32

def isQuote (char : Byte) : Bool :=
  char = 34 || char = 39

/-- An argument and what follows it and its blanks.  The NUL behind a bare word
is put where the comma or the parenthesis stands, so that the blanks in between
belong to the value. -/
def parseArg (text : Bytes) : Option (Bytes × Bytes) :=
  match text with
  | [] => some ([], [])
  | char :: rest =>
    if isQuote char then
      (quotedArg char rest).map fun cut => (cut.1, skipBlanks cut.2)
    else
      let left := (char :: rest).dropWhile isBareChar
      some ((char :: rest).takeWhile isBareChar ++ left.takeWhile (· = 32),
        skipBlanks left)

/-- The label `FINAL`: nothing but blanks and semicolons may follow. -/
def finalArgs (args : List Bytes) (text : Bytes) : Option (List Bytes) :=
  if text.dropWhile (fun char => char = 32 || char = 59) = [] then some args
  else none

variable {text : Bytes}

theorem length_quotedArg_le {quote : Byte} {value rest : Bytes}
    (hcut : quotedArg quote text = some (value, rest)) :
    rest.length ≤ text.length := by
  fun_induction quotedArg quote text generalizing value with
  | case1 => cases hcut
  | case2 => cases hcut; simp
  | case3 => cases hcut
  | case4 => cases hcut; simp
  | case5 next rest hquote ih =>
    obtain ⟨⟨inner, left⟩, hinner, hsame⟩ := Option.map_eq_some_iff.mp hcut
    cases hsame
    have hlength : left.length ≤ _ := ih hinner
    simp only [length_cons]
    omega
  | case6 char next rest hquote hescape ih =>
    obtain ⟨⟨inner, left⟩, hinner, hsame⟩ := Option.map_eq_some_iff.mp hcut
    cases hsame
    have hlength : left.length ≤ _ := ih hinner
    simp only [length_cons] at hlength ⊢
    omega

theorem length_skipBlanks_le (text : Bytes) :
    (skipBlanks text).length ≤ text.length :=
  (dropWhile_suffix _).length_le

theorem length_parseArg_le {value rest : Bytes}
    (harg : parseArg text = some (value, rest)) :
    rest.length ≤ text.length := by
  cases text with
  | nil => cases harg; rfl
  | cons char tail =>
    rw [parseArg] at harg
    split at harg
    · obtain ⟨⟨inner, left⟩, hcut, hsame⟩ := Option.map_eq_some_iff.mp harg
      cases hsame
      have hlength := length_quotedArg_le hcut
      have hblanks := length_skipBlanks_le left
      simp only [length_cons]
      omega
    · cases harg
      exact (length_skipBlanks_le _).trans
        (dropWhile_suffix _).length_le

/-- The loop over the arguments. -/
def parseArgs (args : List Bytes) (text : Bytes) : Option (List Bytes) :=
  if text = [] then none
  else
    match _hstart : skipBlanks text with
    | 41 :: rest => finalArgs args rest
    | start =>
      if 32 ≤ args.length then none
      else
        match _harg : parseArg start with
        | none => none
        | some (value, 41 :: rest) => finalArgs (args ++ [value]) rest
        | some (value, 44 :: rest) => parseArgs (args ++ [value]) rest
        | some (_, _) => none
  termination_by text.length
  decreasing_by
    have hlength := length_parseArg_le _harg
    have hblanks := length_skipBlanks_le text
    rw [_hstart] at hblanks
    simp only [length_cons] at hlength
    omega

/-- The text between `<%` and `%>`. -/
def parseTag (body : Bytes) : Option Call :=
  let start := skipBlanks body
  let ident := start.takeWhile isIdentChar
  if ident = [] then none
  else
    match skipBlanks (start.dropWhile isIdentChar) with
    | 40 :: rest => (parseArgs [] rest).map (Call.mk ident)
    | _ => none

/-! ## Pages -/

def opening : Bytes := bytes "<%"
def closing : Bytes := bytes "%>"

/-- A byte of the page or a call whose output stands in its place. -/
inductive Event
  | byte (char : Byte)
  | call (call : Call)
  deriving DecidableEq, Repr

def write (text : Bytes) : List Event :=
  text.map .byte

variable (known : Bytes → Bool)

/-- The search in `aspapi` and the call. -/
def runTag (body : Bytes) : List Event :=
  match parseTag body with
  | none => []
  | some call => if known call.ident then [.call call] else []

/-- The body of a tag: the first `%>` behind its `<%` closes it, and no other
`<%` stands in between. -/
structure TagBody (body : Bytes) : Prop where
  closes : NoneBefore closing (opening ++ body)
  opens : ¬ opening <:+: body

/-- Text without a complete tag. -/
def Plain (text : Bytes) : Prop :=
  ∀ front body back, TagBody body →
    text ≠ front ++ (opening ++ (body ++ (closing ++ back)))

/-- A page: text, and tags with the text behind each of them. -/
structure Page where
  lead : Bytes
  tags : List (Bytes × Bytes)
  lead_plain : Plain lead
  tags_wf : ∀ tag ∈ tags, TagBody tag.1 ∧ Plain tag.2

def Page.content (page : Page) : Bytes :=
  page.lead ++ page.tags.flatMap fun tag =>
    opening ++ (tag.1 ++ (closing ++ tag.2))

/-- The text as it is, and the output of the tags in their places. -/
def Page.events (page : Page) : List Event :=
  write page.lead ++ page.tags.flatMap fun tag =>
    runTag known tag.1 ++ write tag.2

theorem Plain.of_append {front : Bytes} (hplain : Plain (front ++ text)) :
    Plain text := by
  intro before body behind hbody htext
  apply hplain (front ++ before) body behind hbody
  rw [htext, append_assoc]

section Loop

variable (known : Bytes → Bool)

end Loop

/-! ## Whole pages -/

end Tomato64.AspParser
